import Rpcz.FifoNetwork
import Rpcz.ResponseOrder
import Rpcz.UserCode

/-!
Processes that are connected through zmq. What a broker puts on a socket arrives
whole and in order at the peer of the connection; a ROUTER socket takes off the
identity of the receiver and puts the identity of the sender in front.
-/

namespace Rpcz.Network
open Automaton Message EventLog BrokerThread ProcessModel History EventIds RequestLog ResponseOrder
  ConnectionHome Forwarding Dispatching UserCode FifoNetwork

abbrev End := Nat × ConnectionInfo

/-- All processes run the same rpcz.proto, and each connection has two ends. -/
structure World where
  config : Nat → Config
  proto : Protobuf
  shared : ∀ node, (config node).proto = proto
  lossless : ∀ header, proto.parseHeader (proto.serializeHeader header) = some header
  peer : End → Option End
  symmetric : ∀ near far, peer near = some far → peer far = some near

def putOn : Report → Option (ConnectionInfo × List Frame)
  | .event (.forwarded info frames _) => some (info, onWire info frames)
  | _ => none

def World.wiring (world : World) : Wiring Nat ConnectionInfo (List Frame) Member Action Report where
  machine node := UserCode.machine (world.config node)
  takes _ member action := messageRead member.process action
  puts _ := putOn
  peer := world.peer

abbrev Net := FifoNetwork.Network Nat ConnectionInfo (List Frame) Member

abbrev Log := List (Item Nat ConnectionInfo (List Frame) Report)

def machine (world : World) : Machine Net (Nat × Action) (Item Nat ConnectionInfo (List Frame) Report) :=
  world.wiring.network

def happened (node : Nat) (log : Log) : List Event :=
  eventsIn (eventsAt node log)

@[simp] theorem happened_append (node : Nat) (first second : Log) :
    happened node (first ++ second) = happened node first ++ happened node second := by
  simp [happened]

theorem mem_happened {node : Nat} {event : Event} {log : Log} :
    event ∈ happened node log ↔ .event node (.event event) ∈ log := by
  unfold happened
  rw [mem_eventsIn, mem_eventsAt]

theorem eventsAt_mono {node : Nat} {log more : Log} (kept : log ⊆ more) :
    eventsAt node log ⊆ eventsAt node more :=
  fun _ member => mem_eventsAt.mpr (kept (mem_eventsAt.mp member))

theorem happened_mono {node : Nat} {log more : Log} (kept : log ⊆ more) :
    happened node log ⊆ happened node more :=
  fun _ member => mem_happened.mpr (kept (mem_happened.mp member))

theorem happened_split {node : Nat} {log : Log} {before rest : List Event} {event : Event}
    (split : happened node log = before ++ event :: rest) :
    ∃ front back, log = front ++ .event node (.event event) :: back ∧
      happened node front = before := by
  obtain ⟨reports, report, later, whole, shown, own⟩ := filterMap_split split
  cases report with
  | event other =>
    cases shown
    obtain ⟨front, back, same, earlier⟩ := eventsAt_split whole
    exact ⟨front, back, same, by rw [happened, earlier]; exact own⟩
  | asked | answered => cases shown

variable {world : World} {net after : Net} {log emitted : Log}
  {allowed : Net → Nat × Action → Prop}

theorem member_run (run : Run (machine world) allowed log net) (node : Nat) :
    Run (UserCode.machine (world.config node)) anyStep (eventsAt node log) (net.state node) :=
  world.wiring.project node (fun _ _ _ => trivial) run

theorem process_run (run : Run (machine world) allowed log net) (node : Nat) :
    Run (ProcessModel.machine (world.config node)) anyStep (happened node log)
      (net.state node).process :=
  project_run (member_run run node)

theorem lossless_at (world : World) (node : Nat) (header : RpcHeader) :
    (world.config node).proto.parseHeader ((world.config node).proto.serializeHeader header) =
      some header := by
  rw [world.shared node]
  exact world.lossless header

/-! ## What travels on a connection -/

structure CarriesRequest (world : World) (log : Log) (near : End) (body : List Frame) : Prop where
  asked : ∃ thread ctrl service method payload,
    .asked thread near.2 ctrl service method payload ∈ eventsAt near.1 log ∧
      (∃ frames, .forwarded near.2 frames (some ctrl) ∈ happened near.1 log) ∧
      body = [] :: requestFrames world.proto ctrl.eventId service method payload

structure CarriesResponse (world : World) (log : Log) (near : End) (body : List Frame) : Prop where
  responded : ∃ response, Responds (world.config near.1) (eventsAt near.1 log) response ∧
    response.info = near.2 ∧
      body = [] :: answerFrames world.proto response.eventId response.outcome

theorem forwarded_carries (run : Run (machine world) allowed log net) {near : End}
    {frames : List Frame} {cause : Option Controller}
    (forwarded : .forwarded near.2 frames cause ∈ happened near.1 log) :
    CarriesRequest world log near (onWire near.2 frames) ∨
      CarriesResponse world log near (onWire near.2 frames) := by
  obtain ⟨sender, cmd, handled, same⟩ := forwarded_read (process_run run near.1) forwarded
  have meant : Meant (world.config near.1) (eventsAt near.1 log) cmd :=
    underway_meant (member_run run near.1) (by rw [same]; rfl) (.inr (.inr ⟨sender, handled⟩))
  cases cmd with
  | request info ctrl data =>
    simp only [outgoingOf, Option.some.injEq, Outgoing.mk.injEq] at same
    obtain ⟨rfl, rfl, rfl⟩ := same
    obtain ⟨thread, service, method, payload, asked, rfl⟩ := meant
    refine .inl ⟨⟨thread, ctrl, service, method, payload, asked, ⟨_, forwarded⟩, ?_⟩⟩
    rw [onWire_wireFrames, world.shared]
  | reply info data =>
    simp only [outgoingOf, Option.some.injEq, Outgoing.mk.injEq] at same
    obtain ⟨rfl, rfl, rfl⟩ := same
    obtain ⟨response, responds, whole⟩ := meant
    simp only [Response.command, Command.reply.injEq] at whole
    refine .inr ⟨⟨response, responds, whole.1, ?_⟩⟩
    rw [onWire_wireFrames, ← whole.2, world.shared]
  | connect | bind | unbind | runClosure | registerSvc | quit => cases same

theorem waiting_carries (run : Run (machine world) allowed log net) {far : End} {body : List Frame}
    (waiting : body ∈ net.wire far) :
    ∃ near, world.peer near = some far ∧
      (CarriesRequest world log near body ∨ CarriesResponse world log near body) := by
  obtain ⟨node, report, info, listed, put, linked⟩ := world.wiring.waiting_sent run waiting
  refine ⟨(node, info), linked, ?_⟩
  cases report with
  | asked | answered => cases put
  | event event =>
    cases event with
    | forwarded target frames cause =>
      simp only [World.wiring, putOn, Option.some.injEq, Prod.mk.injEq] at put
      obtain ⟨rfl, rfl⟩ := put
      have sent : .forwarded (node, target).2 frames cause ∈ happened (node, target).1 log :=
        mem_happened.mpr listed
      exact forwarded_carries run sent
    | _ => cases put

/-! ## What arrives -/

structure ArrivedRequest (world : World) (log : Log) (near far : End) (header payload : Bytes) :
    Prop where
  asked : ∃ thread ctrl service method,
    .asked thread near.2 ctrl service method payload ∈ eventsAt near.1 log ∧
      (∃ frames, .forwarded near.2 frames (some ctrl) ∈ happened near.1 log) ∧
      requestData (world.config far.1) (.handleData far.2 header payload) =
        some ⟨far.2, ctrl.eventId, service, method, payload⟩
  noResponse : (world.config far.1).responseHeader header = none

structure ArrivedResponse (world : World) (log : Log) (near far : End) (header payload : Bytes) :
    Prop where
  responded : ∃ response part, Responds (world.config near.1) (eventsAt near.1 log) response ∧
    response.info = near.2 ∧ (world.config far.1).responseHeader header = some part ∧
      part.getEventId = response.eventId ∧ part.outcome payload = response.outcome
  noRequest : requestData (world.config far.1) (.handleData far.2 header payload) = none

theorem CarriesRequest.arrived {near far : End} {body : List Frame} {header payload : Bytes}
    (carries : CarriesRequest world log near body)
    (content : contentOf body = some (header, payload)) :
    ArrivedRequest world log near far header payload := by
  obtain ⟨thread, ctrl, service, method, sent, asked, forwarded, rfl⟩ := carries.asked
  obtain ⟨written, request, frames, readable, own, named, called, noResponse⟩ :=
    request_readable (lossless_at world far.1) ctrl.eventId service method sent
  rw [world.shared] at frames
  rw [frames] at content
  simp only [contentOf, List.headD_cons, Option.some.injEq, Prod.mk.injEq] at content
  obtain ⟨rfl, rfl⟩ := content
  refine ⟨⟨thread, ctrl, service, method, asked, forwarded, ?_⟩, noResponse⟩
  simp [requestData, readable, own, named, called]

theorem CarriesResponse.arrived {near far : End} {body : List Frame} {header payload : Bytes}
    (carries : CarriesResponse world log near body)
    (content : contentOf body = some (header, payload)) :
    ArrivedResponse world log near far header payload := by
  obtain ⟨response, responds, own, rfl⟩ := carries.responded
  obtain ⟨written, sent, part, frames, readable, same, outcome, noRequest⟩ :=
    answer_readable (lossless_at world far.1) response.eventId response.outcome
  rw [world.shared] at frames
  rw [frames] at content
  simp only [contentOf, List.headD_cons, Option.some.injEq, Prod.mk.injEq] at content
  obtain ⟨rfl, rfl⟩ := content
  refine ⟨⟨response, part, responds, own, readable, same, outcome⟩, ?_⟩
  simp [requestData, noRequest]

/-- A data message arrives in a step that takes it from the link, so it was asked
or answered before the step. -/
theorem arrived_before (run : Run (machine world) allowed log net) {node : Nat}
    {info : ConnectionInfo} {header payload : Bytes} {before rest : List Event}
    (split : happened node log = before ++ .arrived info header payload :: rest) :
    ∃ earlier near, world.peer near = some (node, info) ∧ earlier <+: log ∧
      happened node earlier ⊆ before ∧
      (∃ state, Run (machine world) allowed earlier state) ∧
      (ArrivedRequest world earlier near (node, info) header payload ∨
        ArrivedResponse world earlier near (node, info) header payload) := by
  obtain ⟨front, back, whole, own⟩ := happened_split split
  have steps := run
  rw [whole] at steps
  obtain ⟨earlier, pre, post, later, state, turn, after, stem, permitted, fired, left, remaining,
    right⟩ := steps.occurs
  obtain ⟨mover, action⟩ := turn
  obtain ⟨member, reports, taken, shape, turned⟩ := world.wiring.turn fired
  have inside : .event node (.event (.arrived info header payload)) ∈
      taken ++ reports.map (.event mover) := by
    rw [← shape]
    simp
  obtain ⟨rfl, spoken⟩ := turned.mem_events inside
  obtain ⟨events, stepped, _, rfl, _⟩ := step_cases turned.fired
  have arrived : (header, payload) ∈ received info events := by
    apply mem_received.mpr
    have listed := mem_eventsIn.mpr spoken
    rw [eventsIn_append, eventsIn_said, eventsIn_events, List.nil_append] at listed
    exact listed
  rw [received_step (BrokerSockets.sound_of_run (process_run stem node)) (Moves.step_move stepped) info]
    at arrived
  obtain ⟨message, read, content⟩ := Option.bind_eq_some_iff.mp (Option.mem_toList.mp arrived)
  split at content
  · next here =>
    subst here
    rcases turned.message with ⟨nothing, _⟩ | ⟨port, body, others, takes, _, waited⟩
    · change messageRead _ _ = none at nothing
      rw [nothing] at read
      cases read
    · change messageRead _ _ = some (port, body) at takes
      rw [takes, Option.some.injEq] at read
      subst read
      have waiting : body ∈ state.wire (node, port) := by
        rw [waited]
        exact List.mem_cons_self
      obtain ⟨near, linked, carries⟩ := waiting_carries stem waiting
      refine ⟨earlier, near, linked, ?_, ?_, ⟨state, stem⟩, ?_⟩
      · rw [whole, left, List.append_assoc]
        exact List.prefix_append _ _
      · rw [← own, left]
        exact happened_mono (List.subset_append_left _ _)
      · exact carries.imp (fun request => request.arrived content)
          (fun response => response.arrived content)
  · cases content

/-! ## Whole links -/

theorem World.alone (world : World) {near far : End} (linked : world.peer near = some far)
    (other : End) : world.peer other = some far ↔ other = near := by
  constructor
  · intro same
    exact Option.some.inj ((world.symmetric _ _ same).symm.trans (world.symmetric _ _ linked))
  · rintro rfl
    exact linked

theorem sentTo_forwards {near far : End} (linked : world.peer near = some far) (log : Log) :
    world.wiring.sentTo far log = ((forwards (happened near.1 log)).filter
      (fun message => message.info = near.2)).map fun message => onWire message.info message.frames := by
  rw [world.wiring.sentTo_peer (world.alone linked)]
  unfold happened eventsIn
  induction eventsAt near.1 log with
  | nil => rfl
  | cons report rest ih =>
    rw [← List.singleton_append, List.filterMap_append, List.filterMap_append, ih, forwards_append,
      List.filter_append, List.map_append]
    congr 1
    cases report with
    | asked | answered => rfl
    | event event =>
      cases event with
      | forwarded info frames cause =>
        by_cases here : info = near.2 <;> simp [World.wiring, putOn, forwards, here]
      | _ => rfl

theorem received_taken (run : Run (machine world) allowed log net) (far : End) :
    received far.2 (happened far.1 log) = (takenAt far log).filterMap contentOf := by
  refine Steps.invariant (fun log _ =>
    received far.2 (happened far.1 log) = (takenAt far log).filterMap contentOf) rfl ?_ run
  intro log net turn emitted after earlier known _ fired
  obtain ⟨mover, action⟩ := turn
  obtain ⟨member, reports, taken, rfl, turned⟩ := world.wiring.turn fired
  rw [happened_append, received_append, known, takenAt_append, List.filterMap_append]
  congr 1
  have own : happened far.1 (taken ++ reports.map (.event mover)) =
      if mover = far.1 then eventsIn reports else [] := by
    unfold happened
    rw [turned.eventsAt_items]
    split <;> rfl
  rw [own, takenAt_append, takenAt_events, List.append_nil]
  by_cases here : mover = far.1
  · subst here
    obtain ⟨events, stepped, _, rfl, _⟩ := step_cases turned.fired
    rw [if_pos rfl, eventsIn_append, eventsIn_said, eventsIn_events, List.nil_append,
      received_step (BrokerSockets.sound_of_run (process_run earlier far.1)) (Moves.step_move stepped)]
    rcases turned.message with ⟨nothing, rfl⟩ | ⟨port, body, _, takes, rfl, _⟩
    · change messageRead _ _ = none at nothing
      rw [nothing]
      rfl
    · change messageRead _ _ = some (port, body) at takes
      rw [takes]
      by_cases same : port = far.2
      · subst same
        cases content : contentOf body <;> simp [takenAt, content]
      · have apart : (far.1, port) ≠ far := fun equal => same (congrArg Prod.snd equal)
        simp [takenAt, same, apart]
  · rw [if_neg here]
    rcases turned.message with ⟨_, rfl⟩ | ⟨port, body, _, _, rfl, _⟩
    · rfl
    · have apart : (mover, port) ≠ far := fun equal => here (congrArg Prod.fst equal)
      simp [takenAt, apart, received]

end Rpcz.Network
