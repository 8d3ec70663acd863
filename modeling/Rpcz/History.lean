import Rpcz.Moves
import Rpcz.PendingTable

/-!
Projections of the history of a run, and the two facts all later invariants
rest on: a worker executes exactly the commands queued for it, in their order,
and its pending map is the table that these commands drive.
-/

namespace Rpcz.History
open Automaton Message EventLog ReactorLoop RequestHandlers WorkerThread BrokerThread ProcessModel
  Moves PendingTable

inductive Origin where
  | thread
  | handled
  | broker
  | queued
  | popped
  | worker
  | shutdown
deriving DecidableEq

def origin : Event → Origin
  | .fetched .. | .requested .. | .added .. | .bindCalled .. | .factoriesInserted .. | .received ..
  | .serverDestroyed .. => .thread
  | .handled .. => .handled
  | .routerCreated .. | .forwarded .. | .arrived .. | .timerFired .. | .replied .. | .socketClosed ..
  | .faulted .. => .broker
  | .queued .. => .queued
  | .popped .. => .popped
  | .completed .. | .deleted .. | .closureRun .. | .handlerCreated .. | .serviceDeleted ..
  | .noSuchService .. | .dispatched .. | .called .. => .worker
  | .released .. | .destroyed => .shutdown

theorem filterMap_other {Value : Type} {keep : Event → Option Value} (source : Origin)
    (only : ∀ event, origin event ≠ source → keep event = none) {events : List Event}
    (elsewhere : ∀ event ∈ events, origin event ≠ source) : events.filterMap keep = [] :=
  List.filterMap_eq_nil_iff.mpr (fun event member => only event (elsewhere event member))

def queuedFor (worker : Nat) (events : List Event) : List WorkerCmd :=
  events.filterMap fun
    | .queued index cmd => if index = worker then some cmd else none
    | _ => none

def processed (worker : Nat) (events : List Event) : List WorkerCmd :=
  events.filterMap fun
    | .popped index cmd => if index = worker then some cmd else none
    | _ => none

/-- The pushes to a worker the broker has still to perform. -/
def outgoing (worker : Nat) (outbox : List Output) : List WorkerCmd :=
  outbox.filterMap fun
    | .push index cmd => if index = worker then some cmd else none
    | _ => none

def completions (worker : Nat) (events : List Event) : List (Controller × Outcome) :=
  events.filterMap fun
    | .completed index ctrl outcome => if index = worker then some (ctrl, outcome) else none
    | _ => none

section Projections
variable (worker : Nat) (first second : List Event)

@[simp] theorem queuedFor_append :
    queuedFor worker (first ++ second) = queuedFor worker first ++ queuedFor worker second :=
  List.filterMap_append ..

@[simp] theorem processed_append :
    processed worker (first ++ second) = processed worker first ++ processed worker second :=
  List.filterMap_append ..

@[simp] theorem outgoing_append (outbox more : List Output) :
    outgoing worker (outbox ++ more) = outgoing worker outbox ++ outgoing worker more :=
  List.filterMap_append ..

@[simp] theorem completions_append :
    completions worker (first ++ second) = completions worker first ++ completions worker second :=
  List.filterMap_append ..

theorem queuedFor_other {events : List Event} (elsewhere : ∀ event ∈ events, origin event ≠ .queued) :
    queuedFor worker events = [] := by
  refine filterMap_other .queued (fun event other => ?_) elsewhere
  cases event <;> simp_all [origin]

theorem processed_other {events : List Event} (elsewhere : ∀ event ∈ events, origin event ≠ .popped) :
    processed worker events = [] := by
  refine filterMap_other .popped (fun event other => ?_) elsewhere
  cases event <;> simp_all [origin]

theorem completions_other {events : List Event}
    (elsewhere : ∀ event ∈ events, origin event ≠ .worker) : completions worker events = [] := by
  refine filterMap_other .worker (fun event other => ?_) elsewhere
  cases event <;> simp_all [origin]

end Projections

@[simp] theorem queuedFor_queuedEvents (worker : Nat) (outbox : List Output) :
    queuedFor worker (queuedEvents outbox) = outgoing worker outbox := by
  induction outbox with
  | nil => rfl
  | cons output rest ih =>
    cases output <;>
      simp_all [queuedEvents, queuedFor, outgoing, List.filterMap_cons]

theorem queuedEvents_origin {outbox : List Output} :
    ∀ event ∈ queuedEvents outbox, origin event = .queued := by
  intro event member
  obtain ⟨output, _, shown⟩ := List.mem_filterMap.mp member
  cases output <;> simp at shown
  subst shown
  rfl

section BrokerEvents
variable (cfg : Config) (broker : Broker)

/-! The handlers of the broker report events of the broker only. -/

theorem handleCommand_origin (oracle : Oracle) (sender : Thread) (cmd : Command) :
    ∀ event ∈ (broker.handleCommand cfg oracle sender cmd).2, origin event = .broker := by
  cases cmd <;>
    simp only [Broker.handleCommand, Broker.handleConnectCommand, Broker.handleBindCommand,
      Broker.handleUnbindCommand, Broker.sendRequest, Broker.forwardTo, Broker.fault]
  all_goals try split
  all_goals simp [origin]

theorem handleSocket_origin (info : ConnectionInfo) (frames : List Frame) :
    ∀ event ∈ (broker.handleSocket cfg info frames).2, origin event = .broker := by
  unfold Broker.handleSocket
  split <;> simp [origin]

theorem receive_origin (callback : SocketCallback) (frames : List Frame) :
    ∀ event ∈ (broker.receive cfg callback frames).2, origin event = .broker := by
  cases callback with
  | frontend => simp [Broker.receive, Broker.fault, origin]
  | dealer index =>
    simp only [Broker.receive, Broker.fault, Broker.handleDealerSocket]
    split
    · simp [origin]
    · split
      · simp [origin]
      · exact handleSocket_origin _ _ _ _
  | router index =>
    simp only [Broker.receive, Broker.fault, Broker.handleRouterSocket]
    split
    · simp [origin]
    · split
      · simp [origin]
      · split
        · exact handleSocket_origin _ _ _ _
        · simp

theorem loopTop_origin : ∀ event ∈ broker.loopTop.2, origin event = .broker := by
  unfold Broker.loopTop Broker.fault
  split
  · simp
  · split
    · split
      · simp [origin]
      · intro event member
        obtain ⟨pair, _, rfl⟩ := List.mem_map.mp member
        rfl
    · simp

theorem runTimers_origin (now : UInt64) :
    ∀ event ∈ (broker.runTimers cfg now).2, origin event = .broker := by
  simp +contextual [Broker.runTimers, origin]

theorem afterPoll_origin (outcome : PollOutcome) :
    ∀ event ∈ (broker.afterPoll outcome).2, origin event = .broker := by
  cases outcome <;> simp [Broker.afterPoll, Broker.fault, origin]

end BrokerEvents

theorem perform_origin (process : Process) (output : Output) :
    ∀ event ∈ (process.perform output).2, origin event = .broker := by
  cases output with
  | push | reply => simp [Process.perform, origin]
  | send info socket frames cause =>
    simp only [Process.perform, Broker.fault]
    split <;> simp [origin]

section WorkerEvents
variable (cfg : Config) (factories : Nat → Option Factories) (index fresh : Nat)

theorem getHandler_origin (handlers : HandlerMap) (info : ConnectionInfo) :
    ∀ event ∈ (getHandler factories index fresh handlers info).2.events,
      origin event = .worker := by
  unfold getHandler
  split <;> simp [origin]

theorem handleRequest_origin (handler : RequestHandler) (header : RequestHeader)
    (payload : Bytes) :
    ∀ event ∈ (handler.handleRequest cfg header payload).2, origin event = .worker := by
  unfold RequestHandler.handleRequest dispatchRequest
  split
  · simp [origin]
  · simp only
    split
    · simp [origin]
    · split
      · simp [origin]
      · split <;> simp [origin]

theorem exec_origin (worker : Worker) (cmd : WorkerCmd) :
    ∀ event ∈ (worker.exec cfg factories index fresh cmd).events, origin event = .worker := by
  have completing : ∀ eventId outcome, ∀ event ∈ (worker.complete index fresh eventId outcome).events,
      origin event = .worker := by
    intro eventId outcome
    unfold Worker.complete
    split <;> simp [origin]
  cases cmd with
  | runClosure | startRpc | quitWorker => simp [Worker.exec, Worker.startRpc, origin]
  | handleTimeout eventId => exact completing _ _
  | handleData info header payload =>
    simp only [Worker.exec, Worker.handleData]
    split
    · simp
    · split
      · intro event member
        rcases List.mem_append.mp member with created | ran
        · exact getHandler_origin _ _ _ _ _ event created
        · exact handleRequest_origin _ _ _ _ event ran
      · split
        · exact completing _ _
        · simp
  | registerSvc info name svc =>
    intro event member
    rcases List.mem_append.mp member with created | removed
    · exact getHandler_origin _ _ _ _ _ event created
    · obtain ⟨service, _, rfl⟩ := List.mem_map.mp removed
      rfl

end WorkerEvents

variable {cfg : Config} {process after : Process} {events emitted : List Event}
  {allowed : Process → Action → Prop}

theorem threadMove_frame {thread : Thread} {action : ThreadAction}
    (move : ThreadMove cfg process thread action after emitted) :
    after.broker = process.broker ∧ after.workers = process.workers ∧
      after.nextService = process.nextService ∧ after.shutdown = process.shutdown ∧
      ∀ event ∈ emitted, origin event = .thread := by
  cases move <;> simp [Process.setCall, Process.write, Process.startBind, origin]

theorem perform_workers (process : Process) (output : Output) (worker : Nat) :
    ((process.perform output).1.workers worker).queue =
        (process.workers worker).queue ++ outgoing worker [output] ∧
      ((process.perform output).1.workers worker).pending = (process.workers worker).pending ∧
      ((process.perform output).1.workers worker).handlers = (process.workers worker).handlers ∧
      ((process.perform output).1.workers worker).running = (process.workers worker).running := by
  cases output with
  | reply receiver body => simp [Process.perform, outgoing]
  | send info socket frames cause =>
    simp only [Process.perform]
    split <;> simp [outgoing]
  | push index cmd =>
    by_cases here : worker = index
    · subst here
      simp [Process.perform, outgoing]
    · have apart : index ≠ worker := fun same => here same.symm
      simp [Process.perform, outgoing, Function.update_of_ne here, apart]

theorem perform_outbox (process : Process) (output : Output) :
    (process.perform output).1.broker.outbox = process.broker.outbox := by
  cases output with
  | push | reply => rfl
  | send info socket frames cause =>
    simp only [Process.perform, Broker.fault]
    split <;> rfl

theorem exec_running (factories : Nat → Option Factories) (index fresh : Nat) (worker : Worker)
    {cmd : WorkerCmd} (other : cmd ≠ .quitWorker) :
    (worker.exec cfg factories index fresh cmd).worker.running = worker.running := by
  have completing : ∀ eventId outcome,
      (worker.complete index fresh eventId outcome).worker.running = worker.running := by
    intro eventId outcome
    unfold Worker.complete
    split <;> rfl
  cases cmd with
  | quitWorker => exact absurd rfl other
  | runClosure | startRpc | registerSvc => rfl
  | handleTimeout eventId => exact completing _ _
  | handleData info header payload =>
    simp only [Worker.exec, Worker.handleData]
    split
    · rfl
    · split
      · rfl
      · split
        · exact completing _ _
        · rfl

theorem exec_queue (factories : Nat → Option Factories) (index fresh : Nat) (worker : Worker)
    (cmd : WorkerCmd) :
    (worker.exec cfg factories index fresh cmd).worker.queue = worker.queue := by
  have completing : ∀ eventId outcome,
      (worker.complete index fresh eventId outcome).worker.queue = worker.queue := by
    intro eventId outcome
    unfold Worker.complete
    split <;> rfl
  cases cmd with
  | runClosure | startRpc | quitWorker | registerSvc => rfl
  | handleTimeout eventId => exact completing _ _
  | handleData info header payload =>
    simp only [Worker.exec, Worker.handleData]
    split
    · rfl
    · split
      · rfl
      · split
        · exact completing _ _
        · rfl

theorem worker_move {action : Action} (move : Move cfg process action after emitted) {event : Event}
    (member : event ∈ emitted) (source : origin event = .popped ∨ origin event = .worker) :
    ∃ index cmd rest result, action = .worker index ∧ (process.workers index).queue = cmd :: rest ∧
      { process.workers index with queue := rest }.exec cfg process.factories index
        process.nextService cmd = result ∧
      after = { process.write (.worker index) result.writes with
        workers := Function.update process.workers index result.worker
        nextService := result.fresh } ∧
      emitted = .popped index cmd :: result.events := by
  have brokerEvents : ∀ result : Broker × List Event, (∀ event ∈ result.2, origin event = .broker) →
      event ∈ result.2 ++ queuedEvents result.1.outbox → False := by
    intro result silent inside
    rcases List.mem_append.mp inside with left | right
    · simp [silent event left] at source
    · simp [queuedEvents_origin event right] at source
  cases move with
  | worker index cmd rest legal running idle unread result same =>
    exact ⟨index, cmd, rest, result, rfl, unread, same, rfl, rfl⟩
  | thread thread action after emitted running move =>
    simp [(threadMove_frame move).2.2.2.2 event member] at source
  | loopTop => exact absurd member (brokerEvents _ (loopTop_origin _))
  | timers => exact absurd member (brokerEvents _ (runTimers_origin _ _ _))
  | poll => exact absurd member (brokerEvents _ (afterPoll_origin _ _))
  | finished | quiet => simp at member
  | outOfRange | release | joinWorkers =>
    rw [List.mem_singleton.mp member] at source
    simp [origin] at source
  | joinBroker =>
    obtain ⟨index, _, rfl⟩ := List.mem_map.mp member
    simp [origin] at source
  | command i sender oracle cmd rest phase performed slot unread result same =>
    rcases List.mem_cons.mp member with rfl | later
    · simp [origin] at source
    · exact absurd later (brokerEvents result (same ▸ handleCommand_origin _ _ _ _ _))
  | message i callback frames phase performed slot network nonempty result same =>
    exact absurd member (brokerEvents result (same ▸ receive_origin _ _ _ _))
  | flush output rest live unperformed =>
    simp [perform_origin _ _ event member] at source

theorem pipe_grows {action : Action} (move : Move cfg process action after emitted) (thread : Thread)
    (unread : ∀ cmd, .handled thread cmd ∉ emitted) :
    ∃ more, after.pipes thread = process.pipes thread ++ more := by
  have written : ∀ (process : Process) actor commands,
      ∃ more, (process.write actor commands).pipes thread = process.pipes thread ++ more := by
    intro process actor commands
    by_cases here : thread = actor
    · subst here
      exact ⟨commands, by simp [Process.write]⟩
    · exact ⟨[], by simp [Process.write, Function.update_of_ne here]⟩
  have still : ∃ more, process.pipes thread = process.pipes thread ++ more :=
    ⟨[], (List.append_nil _).symm⟩
  cases move with
  | thread actor action after emitted running move =>
    cases move with
    | requested | connect | bind | serverBind | unbind | add | registerService | reply | nextUnbind =>
      exact written _ _ _
    | _ => exact still
  | worker index cmd rest => exact written _ _ _
  | release actor => exact written _ _ _
  | command i sender oracle cmd rest phase performed slot first result same =>
    have apart : thread ≠ sender := fun here => unread cmd (by rw [here]; exact List.mem_cons_self)
    exact ⟨[], by simp [Function.update_of_ne apart]⟩
  | flush output rest =>
    cases output with
    | push | reply => exact still
    | send info socket frames cause =>
      simp only [Process.perform]
      split <;> exact still
  | _ => exact still

theorem handled_move {action : Action} (move : Move cfg process action after emitted)
    {sender : Thread} {cmd : Command} (member : .handled sender cmd ∈ emitted) :
    ∃ i oracle rest result, process.broker.phase = .dispatch i ∧ process.broker.outbox = [] ∧
      process.broker.reactor.slot i = .ready .frontend ∧
      action = .dispatch (.frontend sender oracle) ∧ process.pipes sender = cmd :: rest ∧
      { process.broker with phase := .dispatch (i + 1) }.handleCommand cfg oracle sender cmd = result ∧
      after = { process with
        pipes := Function.update process.pipes sender rest, broker := result.1 } ∧
      emitted = .handled sender cmd :: (result.2 ++ queuedEvents result.1.outbox) := by
  have brokerEvents : ∀ result : Broker × List Event, (∀ event ∈ result.2, origin event = .broker) →
      .handled sender cmd ∈ result.2 ++ queuedEvents result.1.outbox → False := by
    intro result silent inside
    rcases List.mem_append.mp inside with left | right
    · simpa [origin] using silent _ left
    · simpa [origin] using queuedEvents_origin _ right
  cases move with
  | command i from' oracle cmd' rest phase performed slot unread result same =>
    rcases List.mem_cons.mp member with equal | later
    · simp only [Event.handled.injEq] at equal
      obtain ⟨rfl, rfl⟩ := equal
      exact ⟨i, oracle, rest, result, phase, performed, slot, rfl, unread, same, rfl, rfl⟩
    · exact absurd later (brokerEvents result (same ▸ handleCommand_origin _ _ _ _ _))
  | thread thread action after emitted running move =>
    simpa [origin] using (threadMove_frame move).2.2.2.2 _ member
  | worker index cmd rest legal running idle unread result same =>
    rcases List.mem_cons.mp member with equal | later
    · cases equal
    · rw [← same] at later
      simpa [origin] using exec_origin _ _ _ _ _ _ _ later
  | loopTop => exact absurd member (brokerEvents _ (loopTop_origin _))
  | timers => exact absurd member (brokerEvents _ (runTimers_origin _ _ _))
  | poll => exact absurd member (brokerEvents _ (afterPoll_origin _ _))
  | finished | quiet | outOfRange | release | joinWorkers | joinBroker => simp at member
  | message i callback frames phase performed slot network nonempty result same =>
    exact absurd member (brokerEvents result (same ▸ receive_origin _ _ _ _))
  | flush output rest live unperformed =>
    simpa [origin] using perform_origin _ _ _ member

theorem queuedFor_quit (worker count : Nat) :
    queuedFor worker ((List.range count).map (fun index => Event.queued index .quitWorker)) =
      if worker < count then [.quitWorker] else [] := by
  induction count with
  | zero => simp [queuedFor]
  | succ count ih =>
    rw [List.range_succ, List.map_append, queuedFor_append, ih]
    by_cases here : count = worker
    · subst here
      simp [queuedFor]
    · have single : queuedFor worker [Event.queued count .quitWorker] = [] := by
        simp [queuedFor, here]
      rw [List.map_singleton, single, List.append_nil]
      congr 1
      exact propext ⟨fun low => by omega, fun low => by omega⟩

/-- Where the commands queued for a worker are: taken, in its queue, or still to
be pushed by the broker, and always in this order. -/
def Delivered (events : List Event) (process : Process) : Prop :=
  ∀ worker, queuedFor worker events =
    processed worker events ++ (process.workers worker).queue ++
      outgoing worker process.broker.outbox

theorem Delivered.broker_step (delivered : Delivered events process)
    (performed : process.broker.outbox = []) (result : Broker × List Event)
    (silent : ∀ event ∈ result.2, origin event = .broker) (pipes : Thread → List Command) :
    Delivered (events ++ (result.2 ++ queuedEvents result.1.outbox))
      { process with broker := result.1, pipes := pipes } := by
  intro worker
  have before := delivered worker
  simp only [performed, outgoing, List.filterMap_nil, List.append_nil] at before
  have noQueued : queuedFor worker result.2 = [] :=
    queuedFor_other worker (fun event member => by rw [silent event member]; decide)
  have noPopped : processed worker (result.2 ++ queuedEvents result.1.outbox) = [] := by
    refine processed_other worker (fun event member => ?_)
    rcases List.mem_append.mp member with left | right
    · rw [silent event left]; decide
    · rw [queuedEvents_origin event right]; decide
  simp only [queuedFor_append, processed_append worker events, noPopped, noQueued, before,
    queuedFor_queuedEvents, List.nil_append, List.append_nil]

theorem Delivered.silent_step (delivered : Delivered events process)
    (workers : after.workers = process.workers) (broker : after.broker.outbox = process.broker.outbox)
    (elsewhere : ∀ event ∈ emitted, origin event ≠ .queued ∧ origin event ≠ .popped) :
    Delivered (events ++ emitted) after := by
  intro worker
  have noQueued := queuedFor_other worker (fun event member => (elsewhere event member).1)
  have noPopped := processed_other worker (fun event member => (elsewhere event member).2)
  rw [queuedFor_append, processed_append, noQueued, noPopped, workers, broker, delivered worker]
  simp

theorem delivered_of_run (run : Run (machine cfg) allowed events process) :
    Delivered events process := by
  refine Steps.invariant Delivered ?_ ?_ run
  · intro worker
    rfl
  · intro events process action emitted after _ delivered _ fired
    cases step_move fired with
    | thread thread action after emitted running move =>
      obtain ⟨broker, workers, _, _, silent⟩ := threadMove_frame move
      refine delivered.silent_step workers (by rw [broker]) (fun event member => ?_)
      rw [silent event member]
      decide
    | loopTop phase performed =>
      exact delivered.broker_step performed _ (loopTop_origin _) process.pipes
    | timers now phase performed =>
      exact delivered.broker_step performed _ (runTimers_origin _ _ _) process.pipes
    | poll outcome phase performed =>
      exact delivered.broker_step performed _ (afterPoll_origin _ _) process.pipes
    | finished input i phase performed slot =>
      exact delivered.silent_step rfl rfl (by simp)
    | quiet input i phase performed slot =>
      exact delivered.silent_step rfl rfl (by simp)
    | outOfRange input i phase performed slot =>
      exact delivered.silent_step rfl rfl (by simp [origin])
    | command i sender oracle cmd rest phase performed slot unread result same =>
      have step := delivered.broker_step performed result
        (same ▸ handleCommand_origin _ _ _ _ _) (Function.update process.pipes sender rest)
      intro worker
      have here := step worker
      simp only [queuedFor_append, processed_append] at here ⊢
      simpa [queuedFor, processed] using here
    | message i callback frames phase performed slot network nonempty result same =>
      exact delivered.broker_step performed result (same ▸ receive_origin _ _ _ _) process.pipes
    | flush output rest live unperformed =>
      intro worker
      have queue := (perform_workers (process.setOutbox rest) output worker).1
      have outbox := perform_outbox (process.setOutbox rest) output
      have silent := perform_origin (process.setOutbox rest) output
      have noQueued := queuedFor_other worker
        (fun event member => by rw [silent event member]; decide)
      have noPopped := processed_other worker
        (fun event member => by rw [silent event member]; decide)
      have before := delivered worker
      rw [unperformed, ← List.singleton_append, outgoing_append] at before
      rw [queuedFor_append, processed_append, queue, outbox, noQueued, noPopped, before]
      simp [Process.setOutbox]
    | worker index cmd rest legal running idle unread result same =>
      intro worker
      have silent : ∀ event ∈ result.events, origin event = .worker :=
        same ▸ exec_origin _ _ _ _ _ _
      have queue : result.worker.queue = rest := by rw [← same, exec_queue]
      have before := delivered worker
      have unqueued : queuedFor worker result.events = [] :=
        queuedFor_other worker (fun event member => by rw [silent event member]; decide)
      have unpopped : processed worker result.events = [] :=
        processed_other worker (fun event member => by rw [silent event member]; decide)
      rw [queuedFor_append, processed_append, ← List.singleton_append,
        queuedFor_append, processed_append, unqueued, unpopped, before]
      by_cases here : worker = index
      · subst here
        simp [queuedFor, processed, queue, unread, Process.write]
      · have apart : index ≠ worker := fun same => here same.symm
        simp [queuedFor, processed, Process.write, Function.update_of_ne here, apart]
    | release thread running idle =>
      exact delivered.silent_step rfl rfl (by simp [origin])
    | joinBroker joining exited performed =>
      intro worker
      have before := delivered worker
      have noPopped : processed worker
          ((List.range cfg.workers).map (fun index => Event.queued index .quitWorker)) = [] :=
        processed_other worker (by simp [origin])
      rw [queuedFor_append, processed_append, noPopped, before, queuedFor_quit]
      simp only [performed, outgoing, List.filterMap_nil, List.append_nil]
      split <;> simp
    | joinWorkers joining stopped =>
      exact delivered.silent_step rfl rfl (by simp [origin])

end Rpcz.History
