import Mathlib.Data.List.Perm.Basic
import Rpcz.Completion

/-!
The work a process accepts: the closures of `manager::add` and the requests of
`connection::request`. It goes from the pipe of its thread through the broker to
the queue of a worker, and is nowhere lost or doubled on the way.
-/

namespace Rpcz.AcceptedWork
open Automaton Message EventLog ReactorLoop WorkerThread BrokerThread ProcessModel Moves History
  EventIds RequestLog

inductive Work where
  | closure (closure : Nat)
  | request (ctrl : Controller)
deriving DecidableEq

def workOf : Command → Option Work
  | .runClosure closure => some (.closure closure)
  | .request _ ctrl _ => some (.request ctrl)
  | _ => none

def workIn : WorkerCmd → Option Work
  | .runClosure closure => some (.closure closure)
  | .startRpc ctrl => some (.request ctrl)
  | _ => none

/-- What `manager::add` and `connection::request` have accepted. -/
def accepted (events : List Event) : List (Thread × Work) :=
  events.filterMap fun
    | .added thread closure => some (thread, .closure closure)
    | .requested thread _ ctrl => some (thread, .request ctrl)
    | _ => none

def readWork (events : List Event) : List (Thread × Work) :=
  events.filterMap fun
    | .handled thread cmd => (workOf cmd).map (fun work => (thread, work))
    | _ => none

def queued (events : List Event) : List (Nat × Work) :=
  events.filterMap fun
    | .queued worker cmd => (workIn cmd).map (fun work => (worker, work))
    | _ => none

def begun (events : List Event) : List (Nat × Work) :=
  events.filterMap fun
    | .popped worker cmd => (workIn cmd).map (fun work => (worker, work))
    | _ => none

def pushed (outbox : List Output) : List Work :=
  outbox.filterMap fun
    | .push _ cmd => workIn cmd
    | _ => none

section Keyed
variable {Key Value : Type} [DecidableEq Key] [DecidableEq Value]

def entriesOf (key : Key) (log : List (Key × Value)) : List Value :=
  log.filterMap fun entry => if entry.1 = key then some entry.2 else none

omit [DecidableEq Value] in
@[simp] theorem entriesOf_append (key : Key) (first second : List (Key × Value)) :
    entriesOf key (first ++ second) = entriesOf key first ++ entriesOf key second :=
  List.filterMap_append ..

omit [DecidableEq Value] in
theorem mem_entriesOf {key : Key} {value : Value} {log : List (Key × Value)} :
    value ∈ entriesOf key log ↔ (key, value) ∈ log := by
  constructor
  · intro member
    obtain ⟨⟨owner, entry⟩, inside, shown⟩ := List.mem_filterMap.mp member
    split at shown
    · next same =>
      cases same
      cases shown
      exact inside
    · cases shown
  · exact fun inside => List.mem_filterMap.mpr ⟨_, inside, if_pos rfl⟩

theorem count_entriesOf (key : Key) (value : Value) (log : List (Key × Value)) :
    (entriesOf key log).count value = log.count (key, value) := by
  induction log with
  | nil => rfl
  | cons entry rest ih =>
    obtain ⟨owner, found⟩ := entry
    by_cases here : owner = key
    · subst here
      have front : entriesOf owner ((owner, found) :: rest) = found :: entriesOf owner rest := by
        simp [entriesOf]
      rw [front, List.count_cons, List.count_cons, ih]
      simp
    · have front : entriesOf key ((owner, found) :: rest) = entriesOf key rest := by
        simp [entriesOf, here]
      rw [front, List.count_cons, ih]
      simp [here]

/-- A log that goes on for every key as another does contains it, and what is
left are the continuations. -/
theorem split_of_entries {first second : List (Key × Value)} {rest : Key → List Value}
    (same : ∀ key, entriesOf key first = entriesOf key second ++ rest key) :
    ∃ extra, (second ++ extra).Perm first ∧ ∀ key, (entriesOf key extra).Perm (rest key) := by
  have counts : ∀ key value, first.count (key, value) =
      second.count (key, value) + (rest key).count value := by
    intro key value
    rw [← count_entriesOf, ← count_entriesOf, same, List.count_append]
  have whole : (second ++ first.diff second).Perm first := by
    refine List.subperm_append_diff_self_of_count_le ?_
    rintro ⟨key, value⟩ -
    have counted := counts key value
    omega
  refine ⟨first.diff second, whole, fun key => ?_⟩
  rw [List.perm_iff_count]
  intro value
  have counted := counts key value
  have total := whole.count_eq (key, value)
  rw [List.count_append] at total
  rw [count_entriesOf]
  omega

theorem perm_of_entries {first second : List (Key × Value)}
    (same : ∀ key, entriesOf key first = entriesOf key second) : first.Perm second := by
  have split : ∃ extra, (second ++ extra).Perm first ∧ ∀ key, (entriesOf key extra).Perm [] :=
    split_of_entries fun key => (same key).trans (List.append_nil _).symm
  obtain ⟨extra, whole, rest⟩ := split
  have nothing : extra = [] := by
    refine List.eq_nil_iff_forall_not_mem.mpr (fun ⟨key, value⟩ member => ?_)
    have listed := mem_entriesOf.mpr member
    rw [(rest key).eq_nil] at listed
    cases listed
  rw [nothing, List.append_nil] at whole
  exact whole.symm

end Keyed

section Projections
variable (first second : List Event)

@[simp] theorem accepted_append : accepted (first ++ second) = accepted first ++ accepted second :=
  List.filterMap_append ..

@[simp] theorem readWork_append : readWork (first ++ second) = readWork first ++ readWork second :=
  List.filterMap_append ..

@[simp] theorem queued_append : queued (first ++ second) = queued first ++ queued second :=
  List.filterMap_append ..

@[simp] theorem begun_append : begun (first ++ second) = begun first ++ begun second :=
  List.filterMap_append ..

theorem accepted_other {events : List Event}
    (elsewhere : ∀ event ∈ events, origin event ≠ .thread) : accepted events = [] := by
  refine filterMap_other .thread (fun event other => ?_) elsewhere
  cases event <;> simp_all [origin]

theorem readWork_other {events : List Event}
    (elsewhere : ∀ event ∈ events, origin event ≠ .handled) : readWork events = [] := by
  refine filterMap_other .handled (fun event other => ?_) elsewhere
  cases event <;> simp_all [origin]

theorem queued_other {events : List Event}
    (elsewhere : ∀ event ∈ events, origin event ≠ .queued) : queued events = [] := by
  refine filterMap_other .queued (fun event other => ?_) elsewhere
  cases event <;> simp_all [origin]

theorem begun_other {events : List Event}
    (elsewhere : ∀ event ∈ events, origin event ≠ .popped) : begun events = [] := by
  refine filterMap_other .popped (fun event other => ?_) elsewhere
  cases event <;> simp_all [origin]

end Projections

theorem entriesOf_queued (worker : Nat) (events : List Event) :
    entriesOf worker (queued events) = (queuedFor worker events).filterMap workIn := by
  simp only [entriesOf, queued, queuedFor, List.filterMap_filterMap]
  refine List.filterMap_congr (fun event _ => ?_)
  cases event with
  | queued index cmd =>
    by_cases here : index = worker <;> cases carried : workIn cmd <;> simp [here, carried]
  | _ => rfl

theorem entriesOf_begun (worker : Nat) (events : List Event) :
    entriesOf worker (begun events) = (processed worker events).filterMap workIn := by
  simp only [entriesOf, begun, processed, List.filterMap_filterMap]
  refine List.filterMap_congr (fun event _ => ?_)
  cases event with
  | popped index cmd =>
    by_cases here : index = worker <;> cases carried : workIn cmd <;> simp [here, carried]
  | _ => rfl

theorem queued_pushed (outbox : List Output) :
    (queued (queuedEvents outbox)).map Prod.snd = pushed outbox := by
  simp only [queued, queuedEvents, pushed, List.filterMap_filterMap, List.map_filterMap]
  refine List.filterMap_congr (fun output _ => ?_)
  cases output with
  | push index cmd => cases carried : workIn cmd <;> simp [carried]
  | _ => rfl

/-! ## From the thread to the broker -/

section Steps
variable {cfg : Config} {process after : Process} {events emitted : List Event}
  {allowed : Process → Action → Prop}

theorem pipe_write (thread other : Thread) (process : Process) (commands : List Command) :
    ((process.write thread commands).pipes other).filterMap workOf =
      (process.pipes other).filterMap workOf ++
        if thread = other then commands.filterMap workOf else [] := by
  by_cases here : thread = other
  · subst here
    simp [Process.write]
  · have apart : other ≠ thread := fun same => here same.symm
    simp [Process.write, Function.update_of_ne apart, here]

theorem threadMove_work {thread : Thread} {action : ThreadAction}
    (move : ThreadMove cfg process thread action after emitted) (other : Thread) :
    (after.pipes other).filterMap workOf =
      (process.pipes other).filterMap workOf ++ entriesOf other (accepted emitted) := by
  cases move with
  | requested | add =>
    refine (pipe_write thread other process _).trans ?_
    by_cases here : thread = other <;> simp [accepted, entriesOf, workOf, here]
  | connect | unbind | registerService | reply | nextUnbind | bind | serverBind =>
    refine (pipe_write thread other _ _).trans ?_
    simp [accepted, entriesOf, workOf, Process.startBind]
  | _ => simp [accepted, entriesOf, Process.setCall]

theorem writes_work (factories : Nat → Option Factories) (index fresh : Nat)
    (worker : Worker) (cmd : WorkerCmd) :
    (worker.exec cfg factories index fresh cmd).writes.filterMap workOf = [] := by
  refine List.filterMap_eq_nil_iff.mpr (fun written member => ?_)
  obtain ⟨info, data, rfl⟩ := exec_writes _ _ _ _ _ member
  rfl

/-- What a thread accepted has been read by the broker or is in its pipe. -/
def Carried (events : List Event) (process : Process) : Prop :=
  ∀ thread, entriesOf thread (accepted events) =
    entriesOf thread (readWork events) ++ (process.pipes thread).filterMap workOf

theorem Carried.silent_step (carried : Carried events process)
    (pipes : ∀ thread, (after.pipes thread).filterMap workOf = (process.pipes thread).filterMap workOf)
    (elsewhere : ∀ event ∈ emitted, origin event ≠ .thread ∧ origin event ≠ .handled) :
    Carried (events ++ emitted) after := by
  intro thread
  rw [accepted_append, readWork_append, accepted_other fun event member => (elsewhere event member).1,
    readWork_other fun event member => (elsewhere event member).2, List.append_nil, List.append_nil,
    pipes, carried thread]

theorem broker_elsewhere {result : Broker × List Event}
    (silent : ∀ event ∈ result.2, origin event = .broker) :
    ∀ event ∈ result.2 ++ queuedEvents result.1.outbox, origin event ≠ .thread ∧
      origin event ≠ .handled ∧ origin event ≠ .popped ∧ origin event ≠ .worker := by
  intro event member
  rcases List.mem_append.mp member with left | right
  · rw [silent event left]
    decide
  · rw [queuedEvents_origin event right]
    decide

theorem carried_of_run (run : Run (machine cfg) allowed events process) :
    Carried events process := by
  refine Steps.invariant Carried (fun _ => rfl) ?_ run
  intro events process action emitted after _ carried _ fired
  cases step_move fired with
  | thread thread action after emitted running move =>
    obtain ⟨-, -, -, -, silent⟩ := threadMove_frame move
    have unread : readWork emitted = [] :=
      readWork_other fun event member => by
        rw [silent event member]
        decide
    intro other
    rw [accepted_append, readWork_append, unread, entriesOf_append, carried other,
      threadMove_work move other, List.append_nil, List.append_assoc]
  | loopTop =>
    exact carried.silent_step (fun _ => rfl) fun event member =>
      have apart := broker_elsewhere (loopTop_origin _) event member
      ⟨apart.1, apart.2.1⟩
  | timers =>
    exact carried.silent_step (fun _ => rfl) fun event member =>
      have apart := broker_elsewhere (runTimers_origin _ _ _) event member
      ⟨apart.1, apart.2.1⟩
  | poll =>
    exact carried.silent_step (fun _ => rfl) fun event member =>
      have apart := broker_elsewhere (afterPoll_origin _ _) event member
      ⟨apart.1, apart.2.1⟩
  | finished | quiet => exact carried.silent_step (fun _ => rfl) (by simp)
  | outOfRange => exact carried.silent_step (fun _ => rfl) (by simp [origin])
  | command i sender oracle cmd rest phase performed slot unread result same =>
    have apart := broker_elsewhere (same ▸ handleCommand_origin _ _ _ _ _)
    intro thread
    have before := carried thread
    rw [accepted_append, readWork_append, ← List.singleton_append, accepted_append, readWork_append,
      accepted_other fun event member => (apart event member).1,
      readWork_other fun event member => (apart event member).2.1]
    change _ = _ ++ (Function.update process.pipes sender rest thread).filterMap workOf
    by_cases here : thread = sender
    · subst here
      rw [unread] at before
      cases carries : workOf cmd <;>
        simpa [accepted, readWork, entriesOf, carries] using before
    · have other : sender ≠ thread := fun same => here same.symm
      cases carries : workOf cmd <;>
        simpa [accepted, readWork, entriesOf, carries, Function.update_of_ne here, other] using before
  | message i callback frames phase performed slot network nonempty result same =>
    have apart := broker_elsewhere (same ▸ receive_origin _ _ _ _)
    exact carried.silent_step (fun _ => rfl) fun event member =>
      ⟨(apart event member).1, (apart event member).2.1⟩
  | flush output rest live unperformed =>
    refine carried.silent_step (fun thread => ?_) (fun event member => ?_)
    · cases output with
      | push | reply => rfl
      | send info socket frames cause =>
        simp only [Process.perform]
        split <;> rfl
    · rw [perform_origin _ _ event member]
      decide
  | worker index cmd rest legal running idle unread result same =>
    refine carried.silent_step (fun thread => ?_) (fun event member => ?_)
    · refine (pipe_write (.worker index) thread process result.writes).trans ?_
      have replies : result.writes.filterMap workOf = [] := by
        rw [← same]
        exact writes_work ..
      simp [replies]
    · rcases List.mem_cons.mp member with rfl | later
      · simp [origin]
      · rw [← same] at later
        rw [exec_origin _ _ _ _ _ _ _ later]
        decide
  | release thread =>
    refine carried.silent_step (fun other => ?_) (by simp [origin])
    exact (pipe_write (.app thread) other process [.quit]).trans (by simp [workOf])
  | joinBroker => exact carried.silent_step (fun _ => rfl) (by simp [origin])
  | joinWorkers => exact carried.silent_step (fun _ => rfl) (by simp [origin])

end Steps

/-! ## From the broker to the workers -/

/-- The pushes among the effects of a handler: to workers that exist, and no quit. -/
structure Pushes (cfg : Config) (outbox : List Output) (work : List Work) : Prop where
  legal : ∀ worker cmd, .push worker cmd ∈ outbox → worker < cfg.workers ∧ cmd ≠ .quitWorker
  work : pushed outbox = work

section Handlers
variable (cfg : Config) (broker : Broker)

theorem pushes_nil : Pushes cfg [] [] := ⟨by simp, rfl⟩

theorem handleCommand_pushes (performed : broker.outbox = []) (oracle : Oracle) (sender : Thread)
    (cmd : Command) : ∃ work,
      Pushes cfg (broker.handleCommand cfg oracle sender cmd).1.outbox work ∧
      ((broker.handleCommand cfg oracle sender cmd).1.phase ≠ .faulted →
        work = (workOf cmd).toList) := by
  have nothing : Pushes cfg broker.outbox [] := performed ▸ pushes_nil cfg
  cases cmd with
  | quit => exact ⟨[], nothing, fun _ => rfl⟩
  | connect endpoint =>
    refine ⟨[], ?_, fun _ => rfl⟩
    simp only [Broker.handleCommand, Broker.handleConnectCommand]
    split
    · simp only [Broker.emit, performed]
      exact ⟨by simp, rfl⟩
    · exact nothing
  | bind endpoint =>
    refine ⟨[], ?_, fun _ => rfl⟩
    simp only [Broker.handleCommand, Broker.handleBindCommand]
    split
    · simp only [Broker.emit, performed]
      exact ⟨by simp, rfl⟩
    · exact nothing
  | unbind endpoint =>
    refine ⟨[], ?_, fun _ => rfl⟩
    simp only [Broker.handleCommand, Broker.handleUnbindCommand]
    split <;> exact nothing
  | reply info data =>
    refine ⟨[], ?_, fun _ => rfl⟩
    simp only [Broker.handleCommand, Broker.forwardTo]
    split
    · exact nothing
    · simp only [Broker.emit, performed]
      exact ⟨by simp, rfl⟩
  | runClosure closure =>
    refine ⟨[.closure closure], ?_, fun _ => rfl⟩
    simp only [Broker.handleCommand, Broker.emit, performed]
    refine ⟨fun worker cmd member => ?_, rfl⟩
    simp only [List.nil_append, List.mem_singleton, Output.push.injEq] at member
    obtain ⟨rfl, rfl⟩ := member
    exact ⟨Nat.mod_lt _ cfg.workers_pos, by simp⟩
  | registerSvc info name svc =>
    refine ⟨[], ?_, fun _ => rfl⟩
    simp only [Broker.handleCommand, Broker.emit, performed]
    refine ⟨fun worker cmd member => ?_, rfl⟩
    simp only [List.nil_append, List.mem_singleton, Output.push.injEq] at member
    obtain ⟨rfl, rfl⟩ := member
    exact ⟨cfg.getWorkerIndex_lt info, by simp⟩
  | request info ctrl data =>
    rcases (sendRequest_cases cfg broker performed oracle info ctrl data).2 with
      ⟨fault, stopped, outbox, -⟩ | ⟨socket, outbox, -⟩
    · refine ⟨[], ?_, fun live => absurd stopped live⟩
      simp only [Broker.handleCommand, outbox]
      exact pushes_nil cfg
    · refine ⟨[.request ctrl], ?_, fun _ => rfl⟩
      simp only [Broker.handleCommand, outbox]
      refine ⟨fun worker cmd member => ?_, rfl⟩
      simp only [List.mem_cons, reduceCtorEq, Output.push.injEq, List.not_mem_nil, or_false,
        false_or] at member
      obtain ⟨rfl, rfl⟩ := member
      exact ⟨cfg.getWorkerIndex_lt info, by simp⟩

theorem receive_pushes (performed : broker.outbox = []) (callback : SocketCallback)
    (frames : List Frame) : Pushes cfg (broker.receive cfg callback frames).1.outbox [] := by
  have nothing : Pushes cfg broker.outbox [] := performed ▸ pushes_nil cfg
  have socket : ∀ info frames, Pushes cfg (broker.handleSocket cfg info frames).1.outbox [] := by
    intro info frames
    unfold Broker.handleSocket
    split
    · simp only [Broker.emit, performed]
      refine ⟨fun worker cmd member => ?_, rfl⟩
      simp only [List.nil_append, List.mem_singleton, Output.push.injEq] at member
      obtain ⟨rfl, rfl⟩ := member
      exact ⟨cfg.getWorkerIndex_lt info, by simp⟩
    · exact nothing
  cases callback with
  | frontend => exact nothing
  | dealer index =>
    simp only [Broker.receive, Broker.handleDealerSocket]
    split
    · exact nothing
    · split
      · exact nothing
      · exact socket _ _
  | router index =>
    simp only [Broker.receive, Broker.handleRouterSocket]
    split
    · exact nothing
    · split
      · exact nothing
      · split
        · exact socket _ _
        · exact nothing

theorem loopTop_pushes (performed : broker.outbox = []) :
    Pushes cfg broker.loopTop.1.outbox [] := by
  have nothing : Pushes cfg broker.outbox [] := performed ▸ pushes_nil cfg
  unfold Broker.loopTop
  split
  · exact nothing
  · split
    · split
      · exact nothing
      · simp only [Broker.emit, performed]
        exact ⟨by simp, by simp [pushed, List.filterMap_map]⟩
    · exact nothing

theorem runTimers_pushes (performed : broker.outbox = []) (now : UInt64) :
    Pushes cfg (broker.runTimers cfg now).1.outbox [] := by
  simp only [Broker.runTimers, Broker.emit, performed]
  refine ⟨fun worker cmd member => ?_, by simp [pushed, List.filterMap_map, workIn]⟩
  simp only [List.nil_append, List.mem_map, Output.push.injEq] at member
  obtain ⟨closure, -, rfl, rfl⟩ := member
  exact ⟨Nat.mod_lt _ cfg.workers_pos, by simp⟩

theorem afterPoll_pushes (performed : broker.outbox = []) (outcome : PollOutcome) :
    Pushes cfg (broker.afterPoll outcome).1.outbox [] := by
  have nothing : Pushes cfg broker.outbox [] := performed ▸ pushes_nil cfg
  cases outcome <;> exact nothing

end Handlers

section Queues
variable {cfg : Config} {process after : Process} {events emitted : List Event}
  {allowed : Process → Action → Prop}

/-- What a step queues: for workers that exist, a quit only when the broker is
joined, and the work the broker read in the step. -/
structure Routing (cfg : Config) (process : Process) (action : Action) (after : Process)
    (emitted : List Event) : Prop where
  legal : ∀ worker cmd, .queued worker cmd ∈ emitted → worker < cfg.workers
  quits : ∀ worker, .queued worker .quitWorker ∈ emitted → action = .joinBroker
  live : after.broker.phase ≠ .faulted → process.broker.phase ≠ .faulted
  work : after.broker.phase ≠ .faulted →
    (queued emitted).map Prod.snd = (readWork emitted).map Prod.snd

theorem Routing.silent {action : Action}
    (live : after.broker.phase ≠ .faulted → process.broker.phase ≠ .faulted)
    (elsewhere : ∀ event ∈ emitted, origin event ≠ .queued ∧ origin event ≠ .handled) :
    Routing cfg process action after emitted where
  legal _ _ member := absurd rfl (elsewhere _ member).1
  quits _ member := absurd rfl (elsewhere _ member).1
  live := live
  work _ := by
    rw [queued_other fun event member => (elsewhere event member).1,
      readWork_other fun event member => (elsewhere event member).2]
    rfl

theorem queued_handler {result : Broker × List Event}
    (silent : ∀ event ∈ result.2, origin event = .broker) :
    (queued (result.2 ++ queuedEvents result.1.outbox)).map Prod.snd = pushed result.1.outbox := by
  have unqueued : queued result.2 = [] := queued_other fun event member => by
    rw [silent event member]
    decide
  rw [queued_append, unqueued, List.nil_append, queued_pushed]

theorem Routing.handler {action : Action} {result : Broker × List Event}
    (pushes : Pushes cfg result.1.outbox []) (silent : ∀ event ∈ result.2, origin event = .broker)
    (live : process.broker.phase ≠ .faulted) :
    Routing cfg process action { process with broker := result.1 }
      (result.2 ++ queuedEvents result.1.outbox) where
  legal worker cmd member := by
    rcases List.mem_append.mp member with reported | new
    · exact absurd reported (not_queued_of_broker silent)
    · exact (pushes.legal worker cmd (mem_queuedEvents.mp new)).1
  quits worker member := by
    rcases List.mem_append.mp member with reported | new
    · exact absurd reported (not_queued_of_broker silent)
    · exact absurd rfl (pushes.legal worker _ (mem_queuedEvents.mp new)).2
  live _ := live
  work _ := by
    have unread := broker_elsewhere silent
    rw [readWork_other fun event member => (unread event member).2.1, queued_handler silent,
      pushes.work]
    rfl

theorem queued_quits (count : Nat) :
    queued ((List.range count).map (fun index => Event.queued index .quitWorker)) = [] := by
  refine List.filterMap_eq_nil_iff.mpr (fun event member => ?_)
  obtain ⟨index, -, rfl⟩ := List.mem_map.mp member
  rfl

theorem routing_of_move {action : Action} (move : Move cfg process action after emitted) :
    Routing cfg process action after emitted := by
  cases move with
  | thread thread action after emitted running move =>
    obtain ⟨broker, -, -, -, silent⟩ := threadMove_frame move
    refine .silent (by rw [broker]; exact id) (fun event member => ?_)
    rw [silent event member]
    decide
  | loopTop phase performed =>
    exact .handler (loopTop_pushes cfg _ performed) (loopTop_origin _) (by simp [phase])
  | timers now phase performed =>
    exact .handler (runTimers_pushes cfg _ performed now) (runTimers_origin _ _ _) (by simp [phase])
  | poll outcome phase performed =>
    exact .handler (afterPoll_pushes cfg _ performed outcome) (afterPoll_origin _ _)
      (by simp [phase])
  | finished input i phase | quiet input i phase =>
    exact .silent (fun _ => by simp [phase]) (by simp)
  | outOfRange input i phase => exact .silent (fun _ => by simp [phase]) (by simp [origin])
  | command i sender oracle cmd rest phase performed slot unread result same =>
    obtain ⟨work, pushes, carries⟩ := handleCommand_pushes cfg
      { process.broker with phase := .dispatch (i + 1) } performed oracle sender cmd
    rw [same] at pushes carries
    have silent : ∀ event ∈ result.2, origin event = .broker :=
      same ▸ handleCommand_origin _ _ _ _ _
    have inside : ∀ {worker cmd'},
        .queued worker cmd' ∈ .handled sender cmd :: (result.2 ++ queuedEvents result.1.outbox) →
        .push worker cmd' ∈ result.1.outbox := by
      intro worker cmd' member
      rcases List.mem_cons.mp member with first | later
      · cases first
      · rcases List.mem_append.mp later with reported | new
        · exact absurd reported (not_queued_of_broker silent)
        · exact mem_queuedEvents.mp new
    refine ⟨fun worker cmd' member => (pushes.legal worker cmd' (inside member)).1,
      fun worker member => absurd rfl (pushes.legal worker _ (inside member)).2,
      fun _ => by simp [phase], fun live => ?_⟩
    have unread : readWork (result.2 ++ queuedEvents result.1.outbox) = [] :=
      readWork_other fun event member => (broker_elsewhere silent event member).2.1
    have first : queued [Event.handled sender cmd] = [] := rfl
    rw [← List.singleton_append, queued_append, readWork_append, unread, first, List.nil_append,
      List.append_nil, queued_handler silent, pushes.work, carries live]
    cases carried : workOf cmd <;> simp [readWork, carried]
  | message i callback frames phase performed slot network nonempty result same =>
    have pushes := receive_pushes cfg { process.broker with phase := .dispatch (i + 1) } performed
      callback frames
    rw [same] at pushes
    exact .handler pushes (same ▸ receive_origin _ _ _ _) (by simp [phase])
  | flush output rest live unperformed =>
    refine .silent (fun _ => live) (fun event member => ?_)
    rw [perform_origin _ _ event member]
    decide
  | worker index cmd rest legal running idle unread result same =>
    refine .silent id (fun event member => ?_)
    rcases List.mem_cons.mp member with rfl | later
    · simp [origin]
    · rw [← same] at later
      rw [exec_origin _ _ _ _ _ _ _ later]
      decide
  | release | joinWorkers => exact .silent id (by simp [origin])
  | joinBroker =>
    refine ⟨fun worker cmd member => ?_, fun _ _ => rfl, id, fun _ => ?_⟩
    · obtain ⟨index, below, same⟩ := List.mem_map.mp member
      cases same
      exact List.mem_range.mp below
    · rw [queued_quits, readWork_other]
      · rfl
      · simp [origin]

section Run
variable (run : Run (machine cfg) allowed events process)
include run

theorem queued_legal {worker : Nat} {cmd : WorkerCmd} (member : .queued worker cmd ∈ events) :
    worker < cfg.workers := by
  refine Steps.invariant (fun events _ => .queued worker cmd ∈ events → worker < cfg.workers)
    (by simp) ?_ run member
  intro events process action emitted after _ known _ fired member
  rcases List.mem_append.mp member with old | new
  · exact known old
  · exact (routing_of_move (step_move fired)).legal worker cmd new

theorem queued_eq_read (live : process.broker.phase ≠ .faulted) :
    (queued events).map Prod.snd = (readWork events).map Prod.snd := by
  refine Steps.invariant (fun events process => process.broker.phase ≠ .faulted →
    (queued events).map Prod.snd = (readWork events).map Prod.snd) (fun _ => rfl) ?_ run live
  intro events process action emitted after _ known _ fired live
  have routing := routing_of_move (step_move fired)
  rw [queued_append, readWork_append, List.map_append, List.map_append, known (routing.live live),
    routing.work live]

end Run

end Queues

end Rpcz.AcceptedWork
