import Rpcz.RemoteCalls

/-!
The order of calls over one connection. The peer serves them in the order in
which the broker of the caller read them, so each at most once.
-/

namespace Rpcz.CallOrder
open Automaton Message EventLog BrokerThread ProcessModel History RequestLog ConnectionHome Forwarding
  Dispatching UserCode FifoNetwork Network RemoteCalls
open EventIds hiding requestOf

/-- What a message on a link asks for, as the peer reads it. -/
def askedId (cfg : Config) (body : List Frame) : Option UInt64 :=
  (contentOf body).bind fun data => (requestOf cfg data.1).map Prod.fst

def causeId (message : Outgoing) : Option UInt64 := message.cause.map Controller.eventId

def requestsOn (info : ConnectionInfo) (events : List Event) : List Issued :=
  (handledRequests events).filter (fun request => request.info = info)

structure ServedInOrder (near far : End) (log : Log) : Prop where
  /-- Only what was asked reaches a service, as it was asked. -/
  asked : ∀ eventId name svc method payload,
    .dispatched far.2 eventId name svc method payload ∈ happened far.1 log →
      ∃ thread ctrl, ctrl.eventId = eventId ∧
        .asked thread near.2 ctrl name method payload ∈ eventsAt near.1 log
  inOrder : (served far.2 (happened far.1 log)).map Prod.fst <+:
    (requestsOn near.2 (happened near.1 log)).map (fun request => request.ctrl.eventId)
  /-- The requests of one thread are read in the order in which it made them. -/
  threads : ∀ thread, List.Sublist (ofThread thread (requestsOn near.2 (happened near.1 log)))
    (ofThread thread (issued (happened near.1 log)))
  once : (issued (happened near.1 log)).length < 2 ^ 64 →
    ((served far.2 (happened far.1 log)).map Prod.fst).Nodup

theorem asked_requests (info : ConnectionInfo) (events : List Event) :
    ((asked events).filter (fun message => message.info = info)).filterMap causeId =
      (requestsOn info events).map (fun request => request.ctrl.eventId) := by
  unfold asked requestsOn handledRequests
  induction events with
  | nil => rfl
  | cons event rest ih =>
    rw [← List.singleton_append, List.filterMap_append, List.filterMap_append, List.filter_append,
      List.filter_append, List.filterMap_append, List.map_append, ih]
    congr 1
    cases event with
    | handled sender cmd =>
      cases cmd with
      | request target ctrl data =>
        by_cases here : target = info <;> simp [outgoingOf, causeId, here]
      | reply target data => by_cases here : target = info <;> simp [outgoingOf, causeId, here]
      | _ => rfl
    | _ => rfl

section Run
variable {world : World} {net : Net} {log : Log} {allowed : Net → Nat × Action → Prop}
  (run : Run (Network.machine world) allowed log net)
include run

theorem asked_readable {node : Nat} {message : Outgoing}
    (listed : message ∈ asked (happened node log)) (cfg : Config) (shared : cfg.proto = world.proto) :
    askedId cfg (onWire message.info message.frames) = causeId message := by
  have lossless : ∀ header, cfg.proto.parseHeader (cfg.proto.serializeHeader header) = some header := by
    rw [shared]
    exact world.lossless
  obtain ⟨event, member, shown⟩ := List.mem_filterMap.mp listed
  cases event with
  | handled sender cmd =>
    change outgoingOf cmd = some message at shown
    have meant : Meant (world.config node) (eventsAt node log) cmd :=
      underway_meant (member_run run node) (by rw [shown]; rfl) (.inr (.inr ⟨sender, member⟩))
    cases cmd with
    | request info ctrl data =>
      obtain ⟨thread, service, method, payload, _, rfl⟩ := meant
      simp only [outgoingOf, Option.some.injEq] at shown
      subst shown
      obtain ⟨header, request, frames, readable, own, _, _, _⟩ :=
        request_readable lossless ctrl.eventId service method payload
      rw [askedId, onWire_wireFrames, world.shared, ← shared, frames]
      have parsed : requestOf cfg header = some (request.getEventId, request.getService) := by
        obtain ⟨whole, parses, inside⟩ := Option.bind_eq_some_iff.mp readable
        simp [requestOf, parses, inside]
      simp [contentOf, parsed, own, causeId]
    | reply info data =>
      obtain ⟨response, _, whole⟩ := meant
      simp only [outgoingOf, Option.some.injEq] at shown
      subst shown
      simp only [Response.command, Command.reply.injEq] at whole
      obtain ⟨header, payload, part, frames, _, _, _, noRequest⟩ :=
        answer_readable lossless response.eventId response.outcome
      rw [askedId, onWire_wireFrames, ← whole.2, world.shared, ← shared, frames]
      have silent : requestOf cfg header = none := by
        cases parses : cfg.proto.parseHeader header with
        | none => simp [requestOf, parses]
        | some parsed =>
          simp only [requestIn, parses, Option.bind_some] at noRequest
          simp [requestOf, parses, noRequest]
      simp [contentOf, silent, causeId]
    | _ => cases shown
  | _ => cases shown

theorem served_begins {near far : End} (linked : world.peer near = some far) :
    (served far.2 (happened far.1 log)).map Prod.fst <+:
      (requestsOn near.2 (happened near.1 log)).map (fun request => request.ctrl.eventId) := by
  have nearRun := process_run run near.1
  have farRun := process_run run far.1
  have taking : (served far.2 (happened far.1 log)).map Prod.fst =
      (taken far.2 (happened far.1 log)).filterMap
        (fun data => (requestOf (world.config far.1) data.1).map Prod.fst) := by
    rw [(homed_of_run farRun).serves far.2, List.map_filterMap]
  have arriving : (takenAt far log).filterMap (askedId (world.config far.1)) =
      (received far.2 (happened far.1 log)).filterMap
        (fun data => (requestOf (world.config far.1) data.1).map Prod.fst) := by
    rw [received_taken run far, List.filterMap_filterMap]
    rfl
  have sending : (world.wiring.sentTo far log).filterMap (askedId (world.config far.1)) =
      ((forwards (happened near.1 log)).filter (fun message => message.info = near.2)).filterMap
        causeId := by
    rw [sentTo_forwards linked, List.filterMap_map]
    refine List.filterMap_congr fun message listed => ?_
    have read := (forwards_of_run nearRun).1.subset (List.mem_filter.mp listed).1
    exact asked_readable run read (world.config far.1) (world.shared far.1)
  rw [taking, ← asked_requests near.2]
  have handling : (taken far.2 (happened far.1 log)).filterMap
        (fun data => (requestOf (world.config far.1) data.1).map Prod.fst) <+:
      (takenAt far log).filterMap (askedId (world.config far.1)) := by
    rw [arriving]
    exact (taken_received farRun far.2).filterMap _
  have passing : (takenAt far log).filterMap (askedId (world.config far.1)) <+:
      (world.wiring.sentTo far log).filterMap (askedId (world.config far.1)) := by
    rw [world.wiring.fifo run far]
    exact (List.prefix_append _ _).filterMap _
  have forwarding : (world.wiring.sentTo far log).filterMap (askedId (world.config far.1)) <+:
      ((asked (happened near.1 log)).filter (fun message => message.info = near.2)).filterMap
        causeId := by
    rw [sending]
    exact ((forwards_of_run nearRun).1.filter _).filterMap _
  exact handling.trans (passing.trans forwarding)

theorem served_once {near far : End} (linked : world.peer near = some far)
    (few : (issued (happened near.1 log)).length < 2 ^ 64) :
    ((served far.2 (happened far.1 log)).map Prod.fst).Nodup := by
  have ledger := ledger_of_run (process_run run near.1)
  apply List.Nodup.sublist (served_begins run linked).sublist
  have distinct : ((handledRequests (happened near.1 log)).map
      (fun request => request.ctrl.eventId)).Nodup := by
    apply List.Nodup.map_on
    · intro first firstIn second secondIn same
      exact ledger.eventId_injective (ledger.length ▸ few) (ledger.handled_issued firstIn)
        (ledger.handled_issued secondIn) same
    · exact List.Nodup.of_map _ ledger.once
  exact distinct.sublist (List.filter_sublist.map _)

/-- A connection serves what the caller's broker read, in that order. -/
theorem served_in_order {near far : End} (linked : world.peer near = some far) :
    ServedInOrder near far log := by
  have ledger := ledger_of_run (process_run run near.1)
  constructor
  case asked =>
    intro eventId name svc method payload dispatched
    obtain ⟨header, ⟨info, id, service, wanted, sent⟩, found, arrived, carries, own, _⟩ :=
      handled_arrived (process_run run far.1) dispatched rfl
    rcases mem_handling own with ⟨_, other⟩ | ⟨_, _, same | ⟨_, _, _, _, _, other⟩⟩
    · cases other
    · simp only [Event.dispatched.injEq] at same
      obtain ⟨rfl, rfl, rfl, rfl, rfl, rfl⟩ := same
      obtain ⟨other, thread, ctrl, linked', own, asked, _⟩ := arrived_asked run arrived carries
      obtain rfl := (world.alone linked _).mp linked'
      exact ⟨thread, ctrl, own, asked⟩
    · cases other
  case inOrder => exact served_begins run linked
  case threads =>
    intro thread
    have order := (List.sublist_append_left _ _).trans
      ((List.sublist_append_left _ _).trans (ledger.travels thread))
    exact (List.filter_sublist.filter _).trans order
  case once => exact served_once run linked

end Run

theorem served_in_order_called :
    ServedInOrder (0, .dealer 1) (1, .router 1 [7]) called.2 ∧
      served (.router 1 [7]) (happened 1 called.2) = [(1, [2])] :=
  ⟨served_in_order (run_reached (Network.machine twoProcesses) callAndAnswer) rfl, by decide +kernel⟩

end Rpcz.CallOrder
