import Rpcz.AcceptedWork
import Rpcz.RemoteCalls

/-!
No call is lost. When nothing is on its way any more between two processes whose
brokers run, every call from one to the other was completed once, unless
`connection::request` threw or the method at the peer has kept the reply.
-/

namespace Rpcz.Quiescence
open Automaton Message EventLog RequestHandlers BrokerThread ProcessModel History PendingMap EventIds HandlerCache
  Completion ConnectionHome Forwarding Dispatching UserCode FifoNetwork Network RemoteCalls

/-- No request, reply or command is on its way in a process, and its broker
was not stopped by an exception. -/
structure Idle (process : Process) : Prop where
  calls : ∀ thread, commandOf (process.calls thread) = none
  pipes : ∀ thread, process.pipes thread = []
  running : process.broker.phase ≠ .faulted
  performed : process.broker.outbox = []
  queues : ∀ worker, (process.workers worker).queue = []

/-- Nothing is on its way at the ends of a connection or between them. -/
structure Settled (net : Net) (near far : End) : Prop where
  caller : Idle (net.state near.1).process
  callee : Idle (net.state far.1).process
  there : net.wire far = []
  back : net.wire near = []

theorem Settled.symm {net : Net} {near far : End} (settled : Settled net near far) :
    Settled net far near :=
  ⟨settled.callee, settled.caller, settled.back, settled.there⟩

/-- The service that was handed the replier of a request has not answered. -/
def Withheld (cfg : Config) (reports : List Report) (info : ConnectionInfo) (eventId : UInt64) : Prop :=
  (∃ event ∈ eventsIn reports, replierIn cfg event = some (info, eventId)) ∧
    ∀ thread outcome, .answered thread ⟨info, eventId, outcome⟩ ∉ reports

/-- `connection::request` threw, so nothing was sent and no handler is called. -/
structure Threw (events : List Event) (ctrl : Controller) : Prop where
  unsent : ∀ thread info, .requested thread info ctrl ∉ events
  uncompleted : ∀ worker outcome, .completed worker ctrl outcome ∉ events

theorem handling_outcome (cfg : Config) (request : Request) (found : Option Service) :
    (∃ event ∈ handling cfg request found, ∃ outcome,
        refusal cfg event = some ⟨request.info, request.eventId, outcome⟩) ∨
      ∃ event ∈ handling cfg request found,
        replierIn cfg event = some (request.info, request.eventId) := by
  cases found with
  | none => exact .inl ⟨_, List.mem_singleton_self _, _, rfl⟩
  | some svc =>
    have first : .dispatched request.info request.eventId request.service svc request.method
        request.payload ∈ handling cfg request (some svc) := List.mem_cons_self
    cases known : cfg.descriptor svc.target.cls with
    | none => exact .inr ⟨_, first, by simp [replierIn, known]⟩
    | some findMethodByName =>
      cases named : findMethodByName request.method with
      | none => exact .inl ⟨_, first, .error ErrorCode.NO_SUCH_METHOD [], by simp [refusal, known, named]⟩
      | some descriptor =>
        by_cases parses : cfg.requestParses descriptor request.payload = true
        · refine .inr ⟨.called request.info request.eventId svc.target descriptor request.payload,
            ?_, rfl⟩
          simp [handling, dispatchRequest, known, named, parses]
        · exact .inl ⟨_, first, .error ErrorCode.INVALID_MESSAGE [],
            by simp [refusal, known, named, parses]⟩

/-- A request that `connection::request` has written is under way or was read. -/
theorem requested_underway {cfg : Config} {permitted : Member → Action → Prop} {reports : List Report}
    {member : Member} (run : Run (UserCode.machine cfg) permitted reports member) {thread : Thread}
    {info : ConnectionInfo} {ctrl : Controller} {service method payload : Bytes}
    (asked : .asked thread info ctrl service method payload ∈ reports) {writer : Thread}
    {target : ConnectionInfo} (written : .requested writer target ctrl ∈ eventsIn reports) :
    Underway member.process (eventsIn reports)
      (.request info ctrl (requestFrames cfg.proto ctrl.eventId service method payload)) := by
  have carried := AcceptedWork.carried_of_run (project_run run) writer
  have accepted : AcceptedWork.Work.request ctrl ∈
      AcceptedWork.entriesOf writer (AcceptedWork.accepted (eventsIn reports)) := by
    apply AcceptedWork.mem_entriesOf.mpr
    exact List.mem_filterMap.mpr ⟨_, written, rfl⟩
  rw [carried] at accepted
  have cmd : ∃ cmd, AcceptedWork.workOf cmd = some (.request ctrl) ∧
      Underway member.process (eventsIn reports) cmd := by
    rcases List.mem_append.mp accepted with read | waiting
    · obtain ⟨event, listed, shown⟩ := List.mem_filterMap.mp (AcceptedWork.mem_entriesOf.mp read)
      cases event with
      | handled sender cmd =>
        obtain ⟨work, carries, same⟩ := Option.map_eq_some_iff.mp shown
        cases same
        exact ⟨cmd, carries, .inr (.inr ⟨_, listed⟩)⟩
      | _ => cases shown
    · obtain ⟨cmd, listed, carries⟩ := List.mem_filterMap.mp waiting
      exact ⟨cmd, carries, .inr (.inl ⟨writer, listed⟩)⟩
  obtain ⟨cmd, carries, under⟩ := cmd
  cases cmd with
  | request info' ctrl' data =>
    cases carries
    obtain ⟨other, service', method', payload', again, same⟩ :=
      underway_meant run (by rfl) under
    cases asked_once run asked again
    rw [← same]
    exact under
  | _ => cases carries

theorem requested_of_completed {cfg : Config} {permitted : Process → Action → Prop}
    {events : List Event} {process : Process}
    (run : Run (ProcessModel.machine cfg) permitted events process)
    (running : process.broker.phase ≠ .faulted) {worker : Nat} {ctrl : Controller}
    {outcome : Outcome} (completed : .completed worker ctrl outcome ∈ events) :
    ∃ thread info, .requested thread info ctrl ∈ events := by
  have queued : .startRpc ctrl ∈ queuedFor worker events := by
    rw [delivered_of_run run worker, List.append_assoc]
    exact List.mem_append_left _ (begun_of_completed run completed)
  have read : AcceptedWork.Work.request ctrl ∈
      (AcceptedWork.readWork events).map Prod.snd := by
    rw [← AcceptedWork.queued_eq_read run running]
    apply List.mem_map.mpr
    exact ⟨(worker, .request ctrl), List.mem_filterMap.mpr ⟨_, mem_queuedFor.mp queued, rfl⟩, rfl⟩
  obtain ⟨⟨sender, work⟩, listed, rfl⟩ := List.mem_map.mp read
  have accepted : AcceptedWork.Work.request ctrl ∈
      AcceptedWork.entriesOf sender (AcceptedWork.accepted events) := by
    rw [AcceptedWork.carried_of_run run sender]
    exact List.mem_append_left _ (AcceptedWork.mem_entriesOf.mpr listed)
  obtain ⟨event, member, shown⟩ := List.mem_filterMap.mp (AcceptedWork.mem_entriesOf.mp accepted)
  cases event with
  | requested thread info ctrl' =>
    cases shown
    exact ⟨_, info, member⟩
  | _ => cases shown

section Run
variable {world : World} {net : Net} {log : Log} {allowed : Net → Nat × Action → Prop}
  (run : Run (Network.machine world) allowed log net)
include run

theorem settled_popped {near far : End} (settled : Settled net near far) (linked : world.peer near = some far)
    {cmd : Command} (under : Underway (net.state near.1).process (happened near.1 log) cmd)
    {frames : List Frame} {cause : Option Controller} (sends : outgoingOf cmd = some ⟨near.2, frames, cause⟩)
    {header payload : Bytes} (content : contentOf (onWire near.2 frames) = some (header, payload)) :
    .popped ((world.config far.1).getWorkerIndex far.2) (.handleData far.2 header payload) ∈
      happened far.1 log := by
  have nearRun := process_run run near.1
  have farRun := process_run run far.1
  have handled : ∃ sender, .handled sender cmd ∈ happened near.1 log := by
    rcases under with ⟨thread, calling⟩ | ⟨thread, waiting⟩ | handled
    · rw [settled.caller.calls] at calling
      cases calling
    · rw [settled.caller.pipes] at waiting
      cases waiting
    · exact handled
  obtain ⟨sender, read⟩ := handled
  have inside : (⟨near.2, frames, cause⟩ : Outgoing) ∈ forwards (happened near.1 log) := by
    have all := (forwards_of_run nearRun).2 settled.caller.running
    rw [settled.caller.performed, unsent, List.filterMap_nil, List.append_nil] at all
    rw [← all]
    exact List.mem_filterMap.mpr ⟨_, read, sends⟩
  have sent : onWire near.2 frames ∈ takenAt far log := by
    have whole := world.wiring.fifo run far
    rw [settled.there, List.append_nil, sentTo_forwards linked] at whole
    rw [← whole]
    exact List.mem_map.mpr ⟨_, List.mem_filter.mpr ⟨inside, by simp⟩, rfl⟩
  have arrived : (header, payload) ∈ received far.2 (happened far.1 log) := by
    rw [received_taken run far]
    exact List.mem_filterMap.mpr ⟨_, sent, content⟩
  rw [received_queued farRun, delivered_of_run farRun, settled.callee.queues, settled.callee.performed] at arrived
  obtain ⟨taken, listed, own⟩ := List.mem_filterMap.mp arrived
  rw [outgoing, List.filterMap_nil, List.append_nil, List.append_nil] at listed
  cases taken with
  | handleData target first second =>
    simp only [dataOf, Option.ite_none_right_eq_some, Option.some.injEq, Prod.mk.injEq] at own
    obtain ⟨rfl, rfl, rfl⟩ := own
    exact mem_processed.mp listed
  | _ => cases own

theorem answer_arrives {near far : End} (settled : Settled net near far) (linked : world.peer near = some far)
    (few : (issued (happened near.1 log)).length < 2 ^ 64) {request : Issued}
    (made : request ∈ issued (happened near.1 log)) {outcome : Outcome}
    (under : Underway (net.state far.1).process (happened far.1 log)
      (Response.command world.proto ⟨far.2, request.ctrl.eventId, outcome⟩)) :
    ∃ worker given, .completed worker request.ctrl given ∈ happened near.1 log := by
  have nearRun := process_run run near.1
  have responds := in_turn run ((ledger_of_run nearRun).length ▸ few)
  obtain ⟨header, payload, part, frames, readable, id, result, _⟩ :=
    answer_readable (lossless_at world near.1) request.ctrl.eventId outcome
  rw [world.shared] at frames
  have sends : outgoingOf (Response.command world.proto ⟨far.2, request.ctrl.eventId, outcome⟩) =
      some ⟨far.2, Broker.wireFrames far.2 [header, payload], none⟩ := by
    simp [Response.command, frames, outgoingOf]
  have content : contentOf (onWire far.2 (Broker.wireFrames far.2 [header, payload])) =
      some (header, payload) := by
    simp [contentOf]
  have popped := settled_popped run settled.symm (world.symmetric _ _ linked) under sends content
  obtain ⟨before, rest, split⟩ := List.append_of_mem popped
  have closes : opOf (world.config near.1) (.handleData near.2 header payload) =
      some (.closing request.ctrl.eventId outcome) := by
    simp [opOf, readable, id, result]
  by_cases earlier : ∃ worker given, .completed worker request.ctrl given ∈ before
  · obtain ⟨worker, given, completed⟩ := earlier
    refine ⟨worker, given, ?_⟩
    rw [split]
    exact List.mem_append_left _ completed
  · simp only [not_exists] at earlier
    obtain ⟨later, same⟩ := answer_completes nearRun few responds made before _ _ outcome rest split
      closes earlier
    refine ⟨(world.config near.1).getWorkerIndex near.2, outcome, ?_⟩
    rw [split, same]
    simp

/-- A request that was written is refused by the peer, or its replier is handed on. -/
theorem request_arrives {near far : End} (settled : Settled net near far)
    (linked : world.peer near = some far) {ctrl : Controller} {service method payload : Bytes}
    (under : Underway (net.state near.1).process (happened near.1 log)
      (.request near.2 ctrl (requestFrames world.proto ctrl.eventId service method payload))) :
    (∃ outcome, Responds (world.config far.1) (eventsAt far.1 log) ⟨far.2, ctrl.eventId, outcome⟩) ∨
      ∃ event ∈ happened far.1 log,
        replierIn (world.config far.1) event = some (far.2, ctrl.eventId) := by
  obtain ⟨header, part, frames, readable, own, named, called, _⟩ :=
    request_readable (lossless_at world far.1) ctrl.eventId service method payload
  rw [world.shared] at frames
  have sends : outgoingOf (.request near.2 ctrl
        (requestFrames world.proto ctrl.eventId service method payload)) =
      some ⟨near.2, Broker.wireFrames near.2 [header, payload], some ctrl⟩ := by
    simp [frames, outgoingOf]
  have content : contentOf (onWire near.2 (Broker.wireFrames near.2 [header, payload])) =
      some (header, payload) := by
    simp [contentOf]
  have popped := settled_popped run settled linked under sends content
  have carries : requestData (world.config far.1) (.handleData far.2 header payload) =
      some ⟨far.2, ctrl.eventId, service, method, payload⟩ := by
    simp [requestData, readable, own, named, called]
  obtain ⟨before, rest, split⟩ := List.append_of_mem popped
  have farRun := process_run run far.1
  rw [split] at farRun
  obtain ⟨state, tail, result, later, stem, unread, same, shape⟩ := popped_cut farRun
  have kept : Cached ((world.config far.1).getWorkerIndex far.2) before
      { state.workers ((world.config far.1).getWorkerIndex far.2) with queue := tail }.handlers :=
    cached_of_run stem _
  obtain ⟨created, _, events, _⟩ := exec_handles state.factories state.nextService kept carries
  rw [same] at events
  have inside : ∀ event ∈ handling (world.config far.1) ⟨far.2, ctrl.eventId, service, method, payload⟩
      (lookup result.worker far.2 service), event ∈ happened far.1 log := by
    intro event listed
    rw [split, shape, events]
    simp [listed]
  rcases handling_outcome (world.config far.1) ⟨far.2, ctrl.eventId, service, method, payload⟩
    (lookup result.worker far.2 service) with ⟨event, listed, outcome, refused⟩ | ⟨event, listed, hands⟩
  · exact .inl ⟨outcome, .inr ⟨event, inside event listed, refused⟩⟩
  · exact .inr ⟨event, inside event listed, hands⟩

end Run

theorem unused_queue {cfg : Config} {permitted : Process → Action → Prop} {events : List Event}
    {process : Process} (run : Run (ProcessModel.machine cfg) permitted events process) {worker : Nat}
    (beyond : cfg.workers ≤ worker) : (process.workers worker).queue = [] := by
  have none : queuedFor worker events = [] := by
    apply List.eq_nil_iff_forall_not_mem.mpr
    intro cmd listed
    exact absurd (AcceptedWork.queued_legal run (mem_queuedFor.mp listed)) (Nat.not_lt.mpr beyond)
  have whole := delivered_of_run run worker
  rw [none] at whole
  exact (List.append_eq_nil_iff.mp (List.append_eq_nil_iff.mp whole.symm).1).2

/-! The call of process 0 to process 1 leaves nothing on its way. -/

theorem called_run : Run (Network.machine twoProcesses) (fun _ turn => turn ∈ callAndAnswer) called.2
    called.1 :=
  run_reached_mem (Network.machine twoProcesses) callAndAnswer

theorem called_process (node : Nat) :
    Run (ProcessModel.machine oneMethod) (fun _ action => (node, action) ∈ callAndAnswer)
      (happened node called.2) (called.1.state node).process :=
  project (fun _ _ granted => granted)
    (twoProcesses.wiring.project node (fun _ _ granted => granted) called_run)

theorem called_idle (node : Nat) {thread : Thread} (app : thread ≠ .app 0) (worker : thread ≠ .worker 0) :
    (called.1.state node).process.pipes thread = [] ∧
      (called.1.state node).process.calls thread = .idle := by
  have actors : ∀ turn ∈ callAndAnswer, actor turn.2 = none ∨
      actor turn.2 = some (.app 0) ∨ actor turn.2 = some (.worker 0) := by decide +kernel
  apply idle_of_run (called_process node)
  intro process action granted acts
  rcases actors _ granted with none | same | same
  · rw [acts] at none
    cases none
  · rw [acts] at same
    exact app (Option.some.inj same)
  · rw [acts] at same
    exact worker (Option.some.inj same)

theorem idle_called {node : Nat}
    (app : (called.1.state node).process.pipes (.app 0) = [] ∧
      commandOf ((called.1.state node).process.calls (.app 0)) = none)
    (worker : (called.1.state node).process.pipes (.worker 0) = [] ∧
      commandOf ((called.1.state node).process.calls (.worker 0)) = none)
    (broker : (called.1.state node).process.broker.phase ≠ .faulted ∧
      (called.1.state node).process.broker.outbox = [])
    (queue : ((called.1.state node).process.workers 0).queue = []) :
    Idle (called.1.state node).process := by
  have threads : ∀ thread, (called.1.state node).process.pipes thread = [] ∧
      commandOf ((called.1.state node).process.calls thread) = none := by
    intro thread
    by_cases first : thread = .app 0
    · exact first ▸ app
    · by_cases second : thread = .worker 0
      · exact second ▸ worker
      · obtain ⟨empty, idle⟩ := called_idle node first second
        exact ⟨empty, by rw [idle]; rfl⟩
  refine ⟨fun thread => (threads thread).2, fun thread => (threads thread).1, broker.1, broker.2, ?_⟩
  intro index
  cases index with
  | zero => exact queue
  | succ index => exact unused_queue (called_process node) (Nat.le_add_left ..)

theorem settled_called : Settled called.1 (0, .dealer 1) (1, .router 1 [7]) := by
  constructor
  case caller =>
    exact idle_called (by decide +kernel) (by decide +kernel) (by decide +kernel) (by decide +kernel)
  case callee =>
    exact idle_called (by decide +kernel) (by decide +kernel) (by decide +kernel) (by decide +kernel)
  case there => decide +kernel
  case back => decide +kernel

end Rpcz.Quiescence
