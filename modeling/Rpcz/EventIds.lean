import Mathlib.Data.List.Nodup
import Rpcz.PendingMap

/-!
Event ids. Every request takes the next value of the counter, travels through
its thread's call and frontend pipe, and is read by the broker at most once.
-/

namespace Rpcz.EventIds
open Automaton Message EventLog ReactorLoop RequestHandlers WorkerThread BrokerThread ProcessModel
  Moves History

/-- A request a thread made: who, on which connection, and its controller. -/
structure Issued where
  thread : Thread
  info : ConnectionInfo
  ctrl : Controller
deriving DecidableEq

/-- The requests that took an event id, in the order of the counter. -/
def issued (events : List Event) : List Issued :=
  events.filterMap fun
    | .fetched thread info ctrl => some ⟨thread, info, ctrl⟩
    | _ => none

def handledRequests (events : List Event) : List Issued :=
  events.filterMap fun
    | .handled sender (.request info ctrl _) => some ⟨sender, info, ctrl⟩
    | _ => none

def requestsIn (thread : Thread) (pipe : List Command) : List Issued :=
  pipe.filterMap fun
    | .request info ctrl _ => some ⟨thread, info, ctrl⟩
    | _ => none

def requestOf (thread : Thread) : Call → List Issued
  | .requesting info ctrl _ => [⟨thread, info, ctrl⟩]
  | _ => []

def ofThread (thread : Thread) (requests : List Issued) : List Issued :=
  requests.filter (fun request => request.thread = thread)

section Projections
variable (first second : List Event)

@[simp] theorem issued_append : issued (first ++ second) = issued first ++ issued second :=
  List.filterMap_append ..

@[simp] theorem handledRequests_append :
    handledRequests (first ++ second) = handledRequests first ++ handledRequests second :=
  List.filterMap_append ..

@[simp] theorem requestsIn_append (thread : Thread) (pipe more : List Command) :
    requestsIn thread (pipe ++ more) = requestsIn thread pipe ++ requestsIn thread more :=
  List.filterMap_append ..

@[simp] theorem ofThread_append (thread : Thread) (requests more : List Issued) :
    ofThread thread (requests ++ more) = ofThread thread requests ++ ofThread thread more :=
  List.filter_append ..

theorem issued_other {events : List Event} (elsewhere : ∀ event ∈ events, origin event ≠ .thread) :
    issued events = [] := by
  refine filterMap_other .thread (fun event other => ?_) elsewhere
  cases event <;> simp_all [origin]

theorem handledRequests_other {events : List Event}
    (elsewhere : ∀ event ∈ events, origin event ≠ .handled) : handledRequests events = [] := by
  refine filterMap_other .handled (fun event other => ?_) elsewhere
  cases event <;> simp_all [origin]

end Projections

/-- The event id of the request that fetched it as number `serial`. -/
def eventIdOf (serial : Nat) : UInt64 := UInt64.ofNat (serial + 1)

theorem eventIdOf_injective {first second : Nat} (low : first < 2 ^ 64) (high : second < 2 ^ 64)
    (same : eventIdOf first = eventIdOf second) : first = second := by
  have values := congrArg UInt64.toNat same
  simp only [eventIdOf, UInt64.toNat_ofNat'] at values
  omega

/-- The counter and the way of every request from its thread to the broker. -/
structure Ledger (events : List Event) (process : Process) : Prop where
  numbered : (issued events).map (fun request => request.ctrl.serial) = List.range process.requests
  next : process.nextEventId = eventIdOf process.requests
  ids : ∀ request ∈ issued events, request.ctrl.eventId = eventIdOf request.ctrl.serial
  travels : ∀ thread, List.Sublist
    (ofThread thread (handledRequests events) ++ requestsIn thread (process.pipes thread) ++
      requestOf thread (process.calls thread))
    (ofThread thread (issued events))
  once : ((handledRequests events).map (fun request => request.ctrl.serial)).Nodup

variable {cfg : Config} {process after : Process} {events emitted : List Event}
  {allowed : Process → Action → Prop}

section Uses
variable (ledger : Ledger events process)
include ledger

theorem Ledger.issued_nodup :
    ((issued events).map (fun request => request.ctrl.serial)).Nodup :=
  ledger.numbered ▸ List.nodup_range

theorem Ledger.length : (issued events).length = process.requests := by
  have counted := congrArg List.length ledger.numbered
  simpa using counted

theorem Ledger.serial_lt {request : Issued} (member : request ∈ issued events) :
    request.ctrl.serial < process.requests := by
  have inside := List.mem_map_of_mem (f := fun request => request.ctrl.serial) member
  rw [ledger.numbered] at inside
  exact List.mem_range.mp inside

theorem Ledger.serial_injective {first second : Issued} (firstIn : first ∈ issued events)
    (secondIn : second ∈ issued events) (same : first.ctrl.serial = second.ctrl.serial) :
    first = second :=
  List.inj_on_of_nodup_map ledger.issued_nodup firstIn secondIn same

theorem Ledger.eventId_injective (few : process.requests < 2 ^ 64) {first second : Issued}
    (firstIn : first ∈ issued events) (secondIn : second ∈ issued events)
    (same : first.ctrl.eventId = second.ctrl.eventId) : first = second := by
  rw [ledger.ids first firstIn, ledger.ids second secondIn] at same
  exact ledger.serial_injective firstIn secondIn
    (eventIdOf_injective (Nat.lt_trans (ledger.serial_lt firstIn) few)
      (Nat.lt_trans (ledger.serial_lt secondIn) few) same)

theorem Ledger.handled_issued {request : Issued} (member : request ∈ handledRequests events) :
    request ∈ issued events := by
  have own : request ∈ ofThread request.thread (handledRequests events) :=
    List.mem_filter.mpr ⟨member, by simp⟩
  have inside := (ledger.travels request.thread).subset
    (List.mem_append_left _ (List.mem_append_left _ own))
  exact (List.mem_filter.mp inside).1

theorem Ledger.waiting_issued {thread : Thread} {request : Issued}
    (member : request ∈ requestsIn thread (process.pipes thread)) : request ∈ issued events := by
  have inside := (ledger.travels thread).subset
    (List.mem_append_left _ (List.mem_append_right _ member))
  exact (List.mem_filter.mp inside).1

theorem Ledger.travelling_fresh {request : Issued}
    (travels : request ∈ requestsIn request.thread (process.pipes request.thread) ++
      requestOf request.thread (process.calls request.thread)) :
    request ∈ issued events ∧
      request.ctrl.serial ∉ (handledRequests events).map (fun request => request.ctrl.serial) := by
  have whole := ledger.travels request.thread
  rw [List.append_assoc] at whole
  have listed : request ∈ issued events :=
    (List.mem_filter.mp (whole.subset (List.mem_append_right _ travels))).1
  refine ⟨listed, fun member => ?_⟩
  obtain ⟨earlier, handled, same⟩ := List.mem_map.mp member
  have equal := ledger.serial_injective (ledger.handled_issued handled) listed same
  subst equal
  have own : earlier ∈ ofThread earlier.thread (handledRequests events) :=
    List.mem_filter.mpr ⟨handled, by simp⟩
  have distinct : (ofThread earlier.thread (issued events)).Nodup :=
    (List.Nodup.of_map _ ledger.issued_nodup).filter _
  exact (List.disjoint_of_nodup_append (distinct.sublist whole)) own travels

theorem Ledger.unread_fresh {thread : Thread} {info : ConnectionInfo} {ctrl : Controller}
    {data : List Frame} {rest : List Command}
    (unread : process.pipes thread = .request info ctrl data :: rest) :
    ctrl.serial ∉ (handledRequests events).map (fun request => request.ctrl.serial) := by
  have waiting : (⟨thread, info, ctrl⟩ : Issued) ∈ requestsIn thread (process.pipes thread) := by
    simp [unread, requestsIn]
  exact (ledger.travelling_fresh (List.mem_append_left _ waiting)).2

end Uses

theorem Ledger.quiet_step (ledger : Ledger events process)
    (requests : after.requests = process.requests)
    (nextEventId : after.nextEventId = process.nextEventId)
    (pipes : ∀ thread, requestsIn thread (after.pipes thread) =
      requestsIn thread (process.pipes thread))
    (calls : ∀ thread, requestOf thread (after.calls thread) =
      requestOf thread (process.calls thread))
    (fetched : issued emitted = []) (handled : handledRequests emitted = []) :
    Ledger (events ++ emitted) after := by
  constructor
  · simpa [fetched, requests] using ledger.numbered
  · rw [nextEventId, requests]
    exact ledger.next
  · simpa [fetched] using ledger.ids
  · intro thread
    simpa [fetched, handled, pipes, calls] using ledger.travels thread
  · simpa [handled] using ledger.once

theorem Ledger.fetch_step (ledger : Ledger events process) {thread : Thread} {info : ConnectionInfo}
    {service method payload : Bytes} {handler : Option Nat} {timeoutMs : Int64}
    (idle : process.calls thread = .idle) :
    Ledger (events ++ [.fetched thread info
        ⟨process.requests, process.nextEventId, handler, timeoutMs⟩])
      { process.setCall thread (.requesting info
          ⟨process.requests, process.nextEventId, handler, timeoutMs⟩
          (requestFrames cfg.proto process.nextEventId service method payload)) with
        nextEventId := process.nextEventId + 1, requests := process.requests + 1 } := by
  have fetched : issued [.fetched thread info
      ⟨process.requests, process.nextEventId, handler, timeoutMs⟩] =
      [⟨thread, info, ⟨process.requests, process.nextEventId, handler, timeoutMs⟩⟩] := rfl
  have unhandled : handledRequests [.fetched thread info
      ⟨process.requests, process.nextEventId, handler, timeoutMs⟩] = [] := rfl
  constructor
  · simp [fetched, ledger.numbered, List.range_succ]
  · simp only [ledger.next, eventIdOf]
    rw [UInt64.ofNat_add (process.requests + 1) 1]
    rfl
  · intro request member
    rw [issued_append, fetched] at member
    rcases List.mem_append.mp member with old | new
    · exact ledger.ids request old
    · rw [List.mem_singleton.mp new]
      exact ledger.next
  · intro other
    have before := ledger.travels other
    rw [issued_append, handledRequests_append, fetched, unhandled, List.append_nil, ofThread_append]
    by_cases here : other = thread
    · subst here
      simp only [idle, requestOf, List.append_nil] at before
      simpa [Process.setCall, requestOf, ofThread, List.append_assoc] using
        before.append_right [⟨other, info, ⟨process.requests, process.nextEventId, handler, timeoutMs⟩⟩]
    · have apart : thread ≠ other := fun same => here same.symm
      simpa [Process.setCall, Function.update_of_ne here, ofThread, apart] using before
  · simpa [unhandled] using ledger.once

theorem Ledger.send_step (ledger : Ledger events process) {thread : Thread} {info : ConnectionInfo}
    {ctrl : Controller} {data : List Frame} (inside : process.calls thread = .requesting info ctrl data)
    (commands : List Command)
    (sent : commands = [.request info ctrl data] ∨ commands = []) (written : List Event)
    (fetched : issued written = []) (unhandled : handledRequests written = []) :
    Ledger (events ++ written) ((process.write thread commands).setCall thread .idle) := by
  constructor
  · simpa [fetched, Process.setCall, Process.write] using ledger.numbered
  · exact ledger.next
  · simpa [fetched] using ledger.ids
  · intro other
    have before := ledger.travels other
    rw [issued_append, handledRequests_append, fetched, unhandled, List.append_nil, List.append_nil]
    by_cases here : other = thread
    · subst here
      rw [inside] at before
      rcases sent with rfl | rfl
      · simpa [Process.setCall, Process.write, requestsIn, requestOf] using before
      · simp only [Process.setCall, Process.write, Function.update_self, List.append_nil, requestOf]
        exact (List.sublist_append_left _ _).trans before
    · simpa [Process.setCall, Process.write, Function.update_of_ne here] using before
  · simpa [unhandled] using ledger.once

theorem requestsIn_write (thread other : Thread) {commands : List Command}
    (plain : requestsIn thread commands = []) :
    requestsIn other ((process.write thread commands).pipes other) =
      requestsIn other (process.pipes other) := by
  by_cases here : other = thread
  · subst here
    simp [Process.write, plain]
  · simp [Process.write, Function.update_of_ne here]

theorem requestOf_setCall (thread other : Thread) {call : Call}
    (quiet : requestOf thread (process.calls thread) = []) (plain : requestOf thread call = []) :
    requestOf other ((process.setCall thread call).calls other) =
      requestOf other (process.calls other) := by
  by_cases here : other = thread
  · subst here
    simp [Process.setCall, plain, quiet]
  · simp [Process.setCall, Function.update_of_ne here]

theorem Ledger.threadMove (ledger : Ledger events process) {thread : Thread} {action : ThreadAction}
    (move : ThreadMove cfg process thread action after emitted) : Ledger (events ++ emitted) after := by
  have quietCall : ∀ {call : Call}, requestOf thread (process.calls thread) = [] →
      requestOf thread call = [] → ∀ {commands : List Command} {events' : List Event},
      requestsIn thread commands = [] → issued events' = [] → handledRequests events' = [] →
      Ledger (events ++ events') ((process.write thread commands).setCall thread call) := by
    intro call quiet plain commands events' silent fetched unhandled
    exact ledger.quiet_step rfl rfl (fun other => requestsIn_write thread other silent)
      (fun other => requestOf_setCall thread other quiet plain) fetched unhandled
  cases move with
  | request info service method payload handler timeoutMs idle => exact ledger.fetch_step idle
  | requested info ctrl data inside => exact ledger.send_step inside _ (.inl rfl) _ rfl rfl
  | thrown info ctrl data inside =>
    have sent := ledger.send_step inside [] (.inr rfl) [] rfl rfl
    simpa [Process.write, Process.setCall] using sent
  | connect endpoint idle | unbind endpoint idle =>
    exact quietCall (by simp [idle, requestOf]) rfl rfl rfl rfl
  | bind endpoint factories idle | serverBind server endpoint endpoints idle alive unbound =>
    exact ledger.quiet_step rfl rfl (fun other => requestsIn_write thread other rfl)
      (fun other => requestOf_setCall thread other (by simp [Process.write, idle, requestOf]) rfl)
      rfl rfl
  | alreadyBound | newServer | registerFactory =>
    exact ledger.quiet_step rfl rfl (fun _ => rfl) (fun _ => rfl) rfl rfl
  | add closure idle | registerService info name svc idle | reply action info data idle made =>
    exact ledger.quiet_step rfl rfl (fun other => requestsIn_write thread other rfl)
      (fun _ => rfl) rfl rfl
  | destroyServer server endpoints idle alive =>
    exact ledger.quiet_step rfl rfl (fun _ => rfl)
      (fun other => requestOf_setCall thread other (by simp [idle, requestOf]) rfl) rfl rfl
  | insertFactories routerIndex factories inside =>
    exact ledger.quiet_step rfl rfl (fun _ => rfl)
      (fun other => requestOf_setCall thread other (by simp [inside, requestOf]) rfl) rfl rfl
  | serverDestroyed server inside =>
    exact ledger.quiet_step rfl rfl (fun _ => rfl)
      (fun other => requestOf_setCall thread other (by simp [inside, requestOf]) rfl) rfl rfl
  | nextUnbind server endpoint remaining inside =>
    exact quietCall (by simp [inside, requestOf]) rfl rfl rfl rfl
  | connected index rest inside answer | bound factories index rest inside answer
  | unbound rest inside answer | unboundNext server remaining rest inside answer =>
    exact ledger.quiet_step rfl rfl (fun _ => rfl)
      (fun other => requestOf_setCall thread other (by simp [inside, requestOf]) rfl) rfl rfl

theorem Ledger.handle_step (ledger : Ledger events process) {sender : Thread} {cmd : Command}
    {rest : List Command} (unread : process.pipes sender = cmd :: rest) (broker : Broker)
    (later : List Event) (fetched : issued later = []) (unhandled : handledRequests later = []) :
    Ledger (events ++ .handled sender cmd :: later)
      { process with pipes := Function.update process.pipes sender rest, broker := broker } := by
  have none_issued : issued (.handled sender cmd :: later) = [] := by
    rw [← List.singleton_append, issued_append, fetched]
    rfl
  have read : handledRequests (.handled sender cmd :: later) = requestsIn sender [cmd] := by
    rw [← List.singleton_append, handledRequests_append, unhandled, List.append_nil]
    cases cmd <;> rfl
  constructor
  · simpa [none_issued] using ledger.numbered
  · exact ledger.next
  · simpa [none_issued] using ledger.ids
  · intro other
    have before := ledger.travels other
    rw [issued_append, none_issued, List.append_nil, handledRequests_append, read, ofThread_append]
    by_cases here : other = sender
    · subst here
      have own : ofThread other (requestsIn other [cmd]) = requestsIn other [cmd] := by
        cases cmd <;> simp [requestsIn, ofThread]
      rw [unread, ← List.singleton_append, requestsIn_append] at before
      simpa [own] using before
    · have foreign : ofThread other (requestsIn sender [cmd]) = [] := by
        have apart : sender ≠ other := fun same => here same.symm
        cases cmd <;> simp [requestsIn, ofThread, apart]
      simpa [foreign, Function.update_of_ne here] using before
  · rw [handledRequests_append, read, List.map_append]
    cases cmd with
    | request info ctrl data =>
      have fresh := ledger.unread_fresh unread
      refine List.nodup_append.mpr ⟨ledger.once, by simp [requestsIn], fun serial old other new => ?_⟩
      simp only [requestsIn, List.filterMap_cons, List.filterMap_nil, List.map_cons, List.map_nil,
        List.mem_singleton] at new
      subst new
      exact fun same => fresh (same ▸ old)
    | _ => simpa [requestsIn] using ledger.once

theorem exec_writes (factories : Nat → Option Factories) (index fresh : Nat) (worker : Worker)
    (cmd : WorkerCmd) {written : Command}
    (member : written ∈ (worker.exec cfg factories index fresh cmd).writes) :
    ∃ info data, written = .reply info data := by
  have completing : ∀ eventId outcome,
      (worker.complete index fresh eventId outcome).writes = [] := by
    intro eventId outcome
    unfold Worker.complete
    split <;> rfl
  cases cmd with
  | runClosure | startRpc | quitWorker | registerSvc =>
    simp [Worker.exec, Worker.startRpc, Worker.registerService] at member
  | handleTimeout eventId => simp [Worker.exec, Worker.handleTimeout, completing] at member
  | handleData info header payload =>
    simp only [Worker.exec, Worker.handleData] at member
    split at member
    · simp at member
    · split at member
      · simp only [Worker.handleRequest, RequestHandler.handleRequest, dispatchRequest] at member
        split at member
        · exact ⟨_, _, List.mem_singleton.mp member⟩
        · split at member
          · simp at member
          · split at member
            · exact ⟨_, _, List.mem_singleton.mp member⟩
            · split at member
              · simp at member
              · exact ⟨_, _, List.mem_singleton.mp member⟩
      · split at member
        · simp [Worker.handleResponse, completing] at member
        · simp at member

theorem ledger_of_run (run : Run (machine cfg) allowed events process) : Ledger events process := by
  refine Steps.invariant Ledger ?_ ?_ run
  · exact ⟨rfl, rfl, by simp [issued], fun _ => .slnil, .nil⟩
  · intro events process action emitted after _ ledger _ fired
    have brokerEvents : ∀ result : Broker × List Event,
        (∀ event ∈ result.2, origin event = .broker) →
        issued (result.2 ++ queuedEvents result.1.outbox) = [] ∧
          handledRequests (result.2 ++ queuedEvents result.1.outbox) = [] := by
      intro result silent
      have apart : ∀ event ∈ result.2 ++ queuedEvents result.1.outbox,
          origin event ≠ .thread ∧ origin event ≠ .handled := by
        intro event member
        rcases List.mem_append.mp member with left | right
        · rw [silent event left]; decide
        · rw [queuedEvents_origin event right]; decide
      exact ⟨issued_other (fun event member => (apart event member).1),
        handledRequests_other (fun event member => (apart event member).2)⟩
    have brokerStep : ∀ result : Broker × List Event,
        (∀ event ∈ result.2, origin event = .broker) →
        Ledger (events ++ (result.2 ++ queuedEvents result.1.outbox))
          { process with broker := result.1 } := by
      intro result silent
      obtain ⟨fetched, unhandled⟩ := brokerEvents result silent
      exact ledger.quiet_step rfl rfl (fun _ => rfl) (fun _ => rfl) fetched unhandled
    cases step_move fired with
    | thread thread action after emitted running move => exact ledger.threadMove move
    | loopTop phase performed => exact brokerStep _ (loopTop_origin _)
    | timers now phase performed => exact brokerStep _ (runTimers_origin _ _ _)
    | poll outcome phase performed => exact brokerStep _ (afterPoll_origin _ _)
    | finished | quiet | outOfRange | joinWorkers =>
      exact ledger.quiet_step rfl rfl (fun _ => rfl) (fun _ => rfl) rfl rfl
    | command i sender oracle cmd rest phase performed slot unread result same =>
      obtain ⟨fetched, unhandled⟩ := brokerEvents result (same ▸ handleCommand_origin _ _ _ _ _)
      exact ledger.handle_step unread result.1 _ fetched unhandled
    | message i callback frames phase performed slot network nonempty result same =>
      exact brokerStep result (same ▸ receive_origin _ _ _ _)
    | flush output rest live unperformed =>
      have silent := perform_origin (process.setOutbox rest) output
      refine ledger.quiet_step ?_ ?_ (fun thread => ?_) (fun thread => ?_)
        (issued_other (fun event member => by rw [silent event member]; decide))
        (handledRequests_other (fun event member => by rw [silent event member]; decide))
      all_goals
        cases output with
        | push | reply => rfl
        | send info socket frames cause =>
          simp only [Process.perform]
          split <;> rfl
    | worker index cmd rest legal running idle unread result same =>
      have silent : ∀ event ∈ result.events, origin event = .worker :=
        same ▸ exec_origin _ _ _ _ _ _
      have plain : requestsIn (.worker index) result.writes = [] := by
        refine List.filterMap_eq_nil_iff.mpr (fun written member => ?_)
        obtain ⟨info, data, rfl⟩ := exec_writes _ _ _ _ _ (same ▸ member)
        rfl
      refine ledger.quiet_step rfl rfl (fun thread => requestsIn_write _ thread plain)
        (fun _ => rfl) ?_ ?_
      · exact issued_other (fun event member => by
          rcases List.mem_cons.mp member with rfl | later
          · simp [origin]
          · rw [silent event later]; decide)
      · exact handledRequests_other (fun event member => by
          rcases List.mem_cons.mp member with rfl | later
          · simp [origin]
          · rw [silent event later]; decide)
    | release thread running idle =>
      exact ledger.quiet_step rfl rfl (fun other => requestsIn_write _ other rfl) (fun _ => rfl)
        rfl rfl
    | joinBroker =>
      refine ledger.quiet_step rfl rfl (fun _ => rfl) (fun _ => rfl) ?_ ?_
      · exact issued_other (by simp [origin])
      · exact handledRequests_other (by simp [origin])

end Rpcz.EventIds
