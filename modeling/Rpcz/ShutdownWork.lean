import Rpcz.AcceptedWork
import Rpcz.ContextTeardown
import Rpcz.SocketUse

/-!
The work that is left when `~manager` joins its threads. The broker leaves its
loop at the next loop head after the quit; the workers execute what is in their
queues in front of the quit and nothing else.
-/

namespace Rpcz.ShutdownWork
open Automaton Message EventLog ReactorLoop WorkerThread BrokerThread ProcessModel Moves
  PendingTable History PendingMap EventIds RequestLog Completion AcceptedWork HeaderCodec
open ContextTeardown (shutdown_move exited_of_run)
open SocketUse (commandTurn)

def added (events : List Event) : List Nat :=
  events.filterMap fun
    | .added _ closure => some closure
    | _ => none

def ran (events : List Event) : List Nat :=
  events.filterMap fun
    | .closureRun _ closure => some closure
    | _ => none

def handlerRuns (ctrl : Controller) (events : List Event) : List (Nat × Outcome) :=
  events.filterMap fun
    | .completed worker other outcome => if other = ctrl then some (worker, outcome) else none
    | _ => none

def deletions (ctrl : Controller) (events : List Event) : List Nat :=
  events.filterMap fun
    | .deleted worker other => if other = ctrl then some worker else none
    | _ => none

/-- Every closure was run as often as it was added; the handler of every request
ran once, and its controller was deleted once. -/
structure WorkCompleted (events : List Event) : Prop where
  closures : ∀ closure, (ran events).count closure = (added events).count closure
  handlers : ∀ thread info ctrl, .requested thread info ctrl ∈ events →
    (handlerRuns ctrl events).length = 1
  controllers : ∀ thread info ctrl, .requested thread info ctrl ∈ events →
    (deletions ctrl events).length = 1

def leftover (cfg : Config) (worker : Worker) : Table UInt64 Controller :=
  (replay worker.pending (opsOf cfg worker.queue)).1

def unreadWork (process : Process) (thread : Thread) : List Work :=
  (process.pipes thread).filterMap workOf

/-- When the broker thread is joined, it has read all work, and the commands in
the queue of each worker complete all requests the worker holds. -/
def Settled (cfg : Config) (process : Process) : Action → Prop
  | .joinBroker => (∀ thread, unreadWork process thread = []) ∧
      ∀ worker eventId, leftover cfg (process.workers worker) eventId = none
  | _ => True

section Stages
variable {cfg : Config} {process after : Process} {events emitted : List Event}
  {allowed : Process → Action → Prop}

/-- A worker whose last command is the quit. -/
def LastQuit (worker : Worker) : Prop :=
  (worker.running = true ∧ ∃ before, worker.queue = before ++ [.quitWorker] ∧
    .quitWorker ∉ before) ∨ (worker.running = false ∧ worker.queue = [])

/-- A worker ends only by a quit, and is told to quit when the broker is joined. -/
structure Working (events : List Event) (process : Process) : Prop where
  running : ∀ worker, (process.workers worker).running = false →
    .popped worker .quitWorker ∈ events
  unquit : process.shutdown = .running ∨ process.shutdown = .joiningBroker →
    ∀ worker, .queued worker .quitWorker ∉ events

theorem running_move {action : Action} (move : Move cfg process action after emitted) {worker : Nat}
    (stopped : (after.workers worker).running = false) :
    (process.workers worker).running = false ∨ .popped worker .quitWorker ∈ emitted := by
  cases move with
  | thread thread action after emitted running move =>
    rw [(threadMove_frame move).2.1] at stopped
    exact .inl stopped
  | flush output rest =>
    rw [(perform_workers (process.setOutbox rest) output worker).2.2.2] at stopped
    exact .inl stopped
  | joinBroker =>
    simp only at stopped
    split at stopped <;> exact .inl stopped
  | worker index cmd rest legal running idle unread result same =>
    by_cases here : worker = index
    · subst here
      by_cases quits : cmd = .quitWorker
      · exact .inr (by simp [quits])
      · simp only [Function.update_self] at stopped
        rw [← same, exec_running _ _ _ _ quits] at stopped
        exact .inl stopped
    · simp only [Function.update_of_ne here] at stopped
      exact .inl stopped
  | _ => exact .inl stopped

theorem working_of_run (run : Run (machine cfg) allowed events process) :
    Working events process := by
  refine Steps.invariant Working ?_ ?_ run
  · exact ⟨nofun, by simp⟩
  · intro events process action emitted after _ working _ fired
    have move := step_move fired
    constructor
    · intro worker stopped
      rcases running_move move stopped with before | now
      · exact List.mem_append_left _ (working.running worker before)
      · exact List.mem_append_right _ now
    · intro early worker member
      have stage : action ≠ .joinBroker ∧
          (process.shutdown = .running ∨ process.shutdown = .joiningBroker) := by
        rcases shutdown_move move with ⟨same, -⟩ | ⟨⟨index, rfl⟩, running, -⟩ | ⟨-, -, late⟩ |
          ⟨-, -, late⟩
        · rw [same] at early
          refine ⟨?_, early⟩
          rintro rfl
          cases move with
          | joinBroker joining =>
            rw [joining] at same
            cases same
        · exact ⟨by simp, .inl running⟩
        · rw [late] at early
          simp at early
        · rw [late] at early
          simp at early
      rcases List.mem_append.mp member with old | new
      · exact working.unquit stage.2 worker old
      · exact stage.1 ((routing_of_move move).quits worker new)

/-- Once the broker is joined the workers execute what is left, and are joined. -/
inductive JoinedMove (cfg : Config) (process : Process) : Action → Process → List Event → Prop where
  | worker (index : Nat) (cmd : WorkerCmd) (rest : List WorkerCmd) (legal : index < cfg.workers)
      (running : (process.workers index).running)
      (unread : (process.workers index).queue = cmd :: rest) (result : Result)
      (same : { process.workers index with queue := rest }.exec cfg process.factories index
        process.nextService cmd = result) :
      JoinedMove cfg process (.worker index)
        { process.write (.worker index) result.writes with
          workers := Function.update process.workers index result.worker
          nextService := result.fresh }
        (.popped index cmd :: result.events)
  | joinWorkers (stopped : ∀ index < cfg.workers, (process.workers index).running = false) :
      JoinedMove cfg process .joinWorkers { process with shutdown := .destroyed } [.destroyed]

def Joined (process : Process) : Prop :=
  process.shutdown = .joiningWorkers ∨ process.shutdown = .destroyed

theorem joined_move (run : Run (machine cfg) allowed events process) (joined : Joined process)
    {action : Action} (move : Move cfg process action after emitted) :
    JoinedMove cfg process action after emitted := by
  obtain ⟨exited, performed⟩ := exited_of_run run joined
  cases move with
  | worker index cmd rest legal running idle unread result same =>
    exact .worker index cmd rest legal running unread result same
  | joinWorkers joining stopped => exact .joinWorkers stopped
  | thread thread action after emitted running =>
    rcases joined with stage | stage <;> simp [running] at stage
  | release index running => rcases joined with stage | stage <;> simp [running] at stage
  | joinBroker joining => rcases joined with stage | stage <;> simp [joining] at stage
  | flush output rest live unperformed => simp [performed] at unperformed
  | loopTop phase | timers now phase | poll outcome phase | finished input i phase
  | quiet input i phase | outOfRange input i phase => simp [exited] at phase
  | command i sender oracle cmd rest phase | message i callback frames phase =>
    simp [exited] at phase

theorem joined_step {action : Action} (move : JoinedMove cfg process action after emitted)
    (joined : Joined process) : Joined after := by
  cases move with
  | worker => exact joined
  | joinWorkers => exact .inr rfl

theorem leftover_exec {worker : Worker} {cmd : WorkerCmd} {rest : List WorkerCmd}
    (unread : worker.queue = cmd :: rest) (factories : Nat → Option Factories)
    (index fresh : Nat) :
    leftover cfg ({ worker with queue := rest }.exec cfg factories index fresh cmd).worker =
      leftover cfg worker := by
  have ops : opsOf cfg (cmd :: rest) = opsOf cfg [cmd] ++ opsOf cfg rest :=
    opsOf_append cfg [cmd] rest
  rw [leftover, leftover, exec_queue, unread, ops, replay_append,
    (exec_replay cfg factories index fresh { worker with queue := rest } cmd).1]

theorem lastQuit_exec {worker : Worker} (last : LastQuit worker) (running : worker.running = true)
    {cmd : WorkerCmd} {rest : List WorkerCmd} (unread : worker.queue = cmd :: rest)
    (factories : Nat → Option Factories) (index fresh : Nat) :
    LastQuit ({ worker with queue := rest }.exec cfg factories index fresh cmd).worker := by
  rcases last with ⟨-, before, shape, none_before⟩ | ⟨stopped, -⟩
  · rw [unread] at shape
    cases before with
    | nil =>
      obtain ⟨rfl, rfl⟩ := List.cons.inj shape
      exact .inr ⟨rfl, exec_queue _ _ _ _ _⟩
    | cons first others =>
      obtain ⟨rfl, rfl⟩ := List.cons.inj shape
      have other : cmd ≠ .quitWorker := by
        rintro rfl
        exact none_before (List.mem_cons_self ..)
      refine .inl ⟨(exec_running _ _ _ _ other).trans running, others, exec_queue _ _ _ _ _, ?_⟩
      exact fun quits => none_before (List.mem_cons_of_mem _ quits)
  · rw [running] at stopped
    cases stopped

theorem joined_kept {action : Action} (move : JoinedMove cfg process action after emitted) :
    (∀ worker, leftover cfg (after.workers worker) = leftover cfg (process.workers worker)) ∧
      ∀ thread, unreadWork after thread = unreadWork process thread := by
  cases move with
  | joinWorkers => exact ⟨fun _ => rfl, fun _ => rfl⟩
  | worker index cmd rest legal running unread result same =>
    constructor
    · intro worker
      by_cases here : worker = index
      · subst here
        simp only [Function.update_self]
        rw [← same]
        exact leftover_exec unread _ _ _
      · simp only [Function.update_of_ne here]
    · intro thread
      refine (pipe_write (.worker index) thread process result.writes).trans ?_
      have replies : result.writes.filterMap workOf = [] := by
        rw [← same]
        exact writes_work ..
      simp [replies, unreadWork]

structure Finishing (cfg : Config) (process : Process) : Prop where
  last : ∀ worker < cfg.workers, LastQuit (process.workers worker)
  stopped : process.shutdown = .destroyed →
    ∀ worker < cfg.workers, (process.workers worker).running = false

theorem finishing_join (run : Run (machine cfg) allowed events process)
    (fired : (machine cfg).step process .joinBroker = some (after, emitted)) :
    Finishing cfg after ∧ Joined after := by
  have working := working_of_run run
  cases step_move fired with
  | joinBroker joining =>
    refine ⟨⟨fun worker legal => ?_, fun gone => by simp at gone⟩, .inl rfl⟩
    have unquit := working.unquit (.inr joining) worker
    have unqueued : .quitWorker ∉ queuedFor worker events := by
      intro member
      obtain ⟨event, inside, shown⟩ := List.mem_filterMap.mp member
      cases event <;> simp at shown
      obtain ⟨rfl, rfl⟩ := shown
      exact unquit inside
    rw [delivered_of_run run worker] at unqueued
    simp only [List.mem_append, not_or] at unqueued
    simp only [if_pos legal]
    refine .inl ⟨?_, _, rfl, unqueued.1.2⟩
    by_contra stopped
    rw [Bool.not_eq_true] at stopped
    exact unqueued.1.1 (mem_processed.mpr (working.running worker stopped))

theorem finishing_step (finishing : Finishing cfg process) {action : Action}
    (move : JoinedMove cfg process action after emitted) : Finishing cfg after := by
  cases move with
  | joinWorkers stopped => exact ⟨finishing.last, fun _ => stopped⟩
  | worker index cmd rest legal running unread result same =>
    refine ⟨fun worker below => ?_, fun gone => ?_⟩
    · by_cases here : worker = index
      · subst here
        simp only [Function.update_self]
        rw [← same]
        exact lastQuit_exec (finishing.last worker below) running unread _ _ _
      · simp only [Function.update_of_ne here]
        exact finishing.last worker below
    · have stopped := finishing.stopped gone index legal
      rw [running] at stopped
      cases stopped

theorem join_kept (fired : (machine cfg).step process .joinBroker = some (after, emitted)) :
    (∀ worker, leftover cfg (after.workers worker) = leftover cfg (process.workers worker)) ∧
      ∀ thread, unreadWork after thread = unreadWork process thread := by
  cases step_move fired with
  | joinBroker joining =>
    refine ⟨fun worker => ?_, fun _ => rfl⟩
    simp only
    split
    · have quit : opsOf cfg [.quitWorker] = [] := rfl
      rw [leftover, leftover, opsOf_append, quit, List.append_nil]
    · rfl

theorem joined_of_steps (run : Run (machine cfg) anyStep events process)
    (finishing : Finishing cfg process) (joined : Joined process) {more : List Event}
    (steps : Steps (machine cfg) anyStep process more after) :
    Finishing cfg after ∧ Joined after ∧
      (∀ worker, leftover cfg (after.workers worker) = leftover cfg (process.workers worker)) ∧
      ∀ thread, unreadWork after thread = unreadWork process thread := by
  induction steps with
  | refl => exact ⟨finishing, joined, fun _ => rfl, fun _ => rfl⟩
  | next earlier permitted fired ih =>
    obtain ⟨finishing, joined, pending, unread⟩ := ih
    have move := joined_move (run.trans earlier) joined (step_move fired)
    obtain ⟨samePending, sameUnread⟩ := joined_kept move
    exact ⟨finishing_step finishing move, joined_step move joined,
      fun worker => (samePending worker).trans (pending worker),
      fun thread => (sameUnread thread).trans (unread thread)⟩

end Stages

/-! ## Counting the work -/

section Counts
variable {cfg : Config} {process after : Process} {events emitted : List Event}
  {allowed : Process → Action → Prop}

def closureOf : Work → Option Nat
  | .closure closure => some closure
  | .request _ => none

def closuresIn {Party : Type} (log : List (Party × Work)) : List Nat :=
  (log.map Prod.snd).filterMap closureOf

theorem added_accepted (events : List Event) : added events = closuresIn (accepted events) := by
  simp only [added, closuresIn, accepted, List.map_filterMap, List.filterMap_filterMap]
  refine List.filterMap_congr (fun event _ => ?_)
  cases event <;> rfl

@[simp] theorem ran_append (first second : List Event) :
    ran (first ++ second) = ran first ++ ran second := List.filterMap_append ..

theorem ran_other {events : List Event} (elsewhere : ∀ event ∈ events, origin event ≠ .worker) :
    ran events = [] := by
  refine filterMap_other .worker (fun event other => ?_) elsewhere
  cases event <;> simp_all [origin]

theorem exec_ran (factories : Nat → Option Factories) (index fresh : Nat) (worker : Worker)
    (cmd : WorkerCmd) : ran (worker.exec cfg factories index fresh cmd).events =
      (workIn cmd).toList.filterMap closureOf := by
  have completing : ∀ eventId outcome,
      ran (worker.complete index fresh eventId outcome).events = [] := by
    intro eventId outcome
    unfold Worker.complete
    split <;> rfl
  have created : ∀ info, ran
      (RequestHandlers.getHandler factories index fresh worker.handlers info).2.events = [] := by
    intro info
    unfold RequestHandlers.getHandler
    split <;> rfl
  cases cmd with
  | runClosure | startRpc | quitWorker => rfl
  | handleTimeout eventId => exact completing _ _
  | registerSvc info name svc =>
    simp only [Worker.exec, Worker.registerService, ran_append, created, List.nil_append]
    refine List.filterMap_eq_nil_iff.mpr (fun event member => ?_)
    obtain ⟨service, -, rfl⟩ := List.mem_map.mp member
    rfl
  | handleData info header payload =>
    simp only [Worker.exec, Worker.handleData]
    split
    · rfl
    · split
      · simp only [Worker.handleRequest, ran_append, created, List.nil_append]
        unfold RequestHandlers.RequestHandler.handleRequest RequestHandlers.dispatchRequest
        split
        · rfl
        · simp only
          split
          · rfl
          · split
            · rfl
            · split <;> rfl
      · split
        · exact completing _ _
        · rfl

theorem ran_begun (run : Run (machine cfg) allowed events process) :
    ran events = closuresIn (begun events) := by
  refine Steps.invariant (fun events _ => ran events = closuresIn (begun events)) rfl ?_ run
  intro events process action emitted after _ known _ fired
  have step : ran emitted = closuresIn (begun emitted) := by
    by_cases works : ∃ event ∈ emitted, origin event = .popped ∨ origin event = .worker
    · obtain ⟨event, member, source⟩ := works
      obtain ⟨index, cmd, rest, result, -, -, same, -, shape⟩ :=
        worker_move (step_move fired) member source
      have silent : begun result.events = [] := by
        refine begun_other fun event later => ?_
        rw [← same] at later
        rw [exec_origin _ _ _ _ _ _ _ later]
        decide
      rw [shape, ← List.singleton_append, ran_append, begun_append, silent, List.append_nil,
        ← same, exec_ran]
      cases carried : workIn cmd <;> simp [ran, begun, closuresIn, carried]
    · simp only [not_exists, not_and, not_or] at works
      rw [ran_other fun event member => (works event member).2,
        begun_other fun event member => (works event member).1]
      rfl
  rw [ran_append, begun_append, known, step]
  simp [closuresIn]

theorem readWork_once (run : Run (machine cfg) allowed events process) (ctrl : Controller) :
    ((readWork events).map Prod.snd).count (.request ctrl) ≤ 1 := by
  have same : ∀ events : List Event, ((readWork events).map Prod.snd).count (.request ctrl) =
      ((handledRequests events).map Issued.ctrl).count ctrl := by
    intro events
    induction events with
    | nil => rfl
    | cons event rest ih =>
      have split : ∀ events : List Event,
          readWork (event :: events) = readWork [event] ++ readWork events :=
        fun events => readWork_append [event] events
      have splitHandled : ∀ events : List Event,
          handledRequests (event :: events) = handledRequests [event] ++ handledRequests events :=
        fun events => handledRequests_append [event] events
      rw [split, splitHandled, List.map_append, List.map_append, List.count_append,
        List.count_append, ih]
      congr 1
      cases event with
      | handled sender cmd =>
        cases cmd <;> simp [readWork, handledRequests, workOf, List.count_singleton]
      | _ => rfl
  rw [same]
  have distinct : ((handledRequests events).map Issued.ctrl).Nodup := by
    have serials := (ledger_of_run run).once
    rw [← Function.comp_def Controller.serial Issued.ctrl, ← List.map_map] at serials
    exact serials.of_map _
  exact List.nodup_iff_count_le_one.mp distinct ctrl

theorem openings_processed (ctrl : Controller) (commands : List WorkerCmd) :
    openings ctrl (opsOf cfg commands) = commands.count (.startRpc ctrl) := by
  induction commands with
  | nil => rfl
  | cons cmd rest ih =>
    have split : opsOf cfg (cmd :: rest) = opsOf cfg [cmd] ++ opsOf cfg rest :=
      opsOf_append cfg [cmd] rest
    rw [split, openings, List.countP_append, List.count_cons, Nat.add_comm]
    congr 1
    cases cmd with
    | startRpc other =>
      by_cases same : other = ctrl <;> simp [opsOf, opOf, same]
    | handleData info header payload =>
      cases found : cfg.responseHeader header <;> simp [opsOf, opOf, found]
    | _ => simp [opsOf, opOf]

theorem begun_once (run : Run (machine cfg) allowed events process)
    (live : process.broker.phase ≠ .faulted) (worker : Nat) (ctrl : Controller) :
    (processed worker events).count (.startRpc ctrl) ≤ 1 := by
  have carries : ∀ commands : List WorkerCmd, commands.count (.startRpc ctrl) ≤
      (commands.filterMap workIn).count (.request ctrl) := by
    intro commands
    induction commands with
    | nil => exact Nat.le_refl _
    | cons cmd rest ih =>
      rw [List.count_cons]
      cases cmd <;> simp [workIn, List.filterMap_cons, List.count_cons] <;> omega
  calc (processed worker events).count (.startRpc ctrl)
      ≤ (queuedFor worker events).count (.startRpc ctrl) :=
        (processed_stem run worker).sublist.count_le _
    _ ≤ ((queuedFor worker events).filterMap workIn).count (.request ctrl) := carries _
    _ = (queued events).count (worker, .request ctrl) := by
        rw [← entriesOf_queued, count_entriesOf]
    _ ≤ ((queued events).map Prod.snd).count (.request ctrl) :=
        List.count_le_count_map (f := Prod.snd) (x := (worker, Work.request ctrl))
    _ = ((readWork events).map Prod.snd).count (.request ctrl) := by
        rw [queued_eq_read run live]
    _ ≤ 1 := readWork_once run ctrl

/-- The handler of a controller runs at most once, and not at all while the
controller is pending. -/
theorem runs_or_pending (run : Run (machine cfg) allowed events process)
    (live : process.broker.phase ≠ .faulted) (worker : Nat) (ctrl : Controller) :
    (invocations ctrl worker events).length +
      isHeld (process.workers worker).pending ctrl.eventId ctrl ≤ 1 := by
  obtain ⟨pending, completed⟩ := replayed_of_run run worker
  have counted : (invocations ctrl worker events).length =
      deliveriesTo ctrl (pendingAfter cfg (processed worker events)).2 := by
    rw [invocations, completed, List.length_map, deliveriesTo, ← List.countP_eq_length_filter,
      List.countP_map]
    rfl
  have keyed : ∀ other, .opening other ctrl ∈ opsOf cfg (processed worker events) →
      other = ctrl.eventId := by
    intro other member
    obtain ⟨cmd, -, kind⟩ := List.mem_filterMap.mp member
    exact (exec_opening cfg kind).2
  have empty : isHeld (fun _ : UInt64 => (none : Option Controller)) ctrl.eventId ctrl = 0 := rfl
  rw [counted, pending, pendingAfter]
  calc _ ≤ isHeld (fun _ => none) ctrl.eventId ctrl +
          openings ctrl (opsOf cfg (processed worker events)) := replay_count (by simp) keyed
    _ ≤ 1 := by
      rw [empty, Nat.zero_add, openings_processed]
      exact begun_once run live worker ctrl

theorem handlerRuns_home (run : Run (machine cfg) allowed events process) {request : Issued}
    (made : request ∈ issued events) :
    (handlerRuns request.ctrl events).length =
      (invocations request.ctrl (cfg.getWorkerIndex request.info) events).length := by
  have home : ∀ worker outcome, .completed worker request.ctrl outcome ∈ events →
      worker = cfg.getWorkerIndex request.info := by
    intro worker outcome member
    obtain ⟨other, listed, same, place⟩ := issued_of_processed run (begun_of_completed run member)
    have equal := (ledger_of_run run).serial_injective listed made (congrArg Controller.serial same)
    rw [place, equal]
  have counted : ∀ part : List Event, part ⊆ events →
      (handlerRuns request.ctrl part).length =
        (invocations request.ctrl (cfg.getWorkerIndex request.info) part).length := by
    intro part
    induction part with
    | nil => exact fun _ => rfl
    | cons event rest ih =>
      intro inside
      have first : handlerRuns request.ctrl (event :: rest) =
          handlerRuns request.ctrl [event] ++ handlerRuns request.ctrl rest :=
        List.filterMap_append (l := [event]) ..
      have second := invocations_append request.ctrl (cfg.getWorkerIndex request.info) [event] rest
      rw [List.singleton_append] at second
      rw [first, second, List.length_append, List.length_append,
        ih (fun event member => inside (List.mem_cons_of_mem _ member))]
      congr 1
      cases event with
      | completed worker ctrl outcome =>
        by_cases same : ctrl = request.ctrl
        · subst same
          have here := home worker outcome (inside (List.mem_cons_self ..))
          simp [handlerRuns, invocations, completions, here]
        · by_cases here : worker = cfg.getWorkerIndex request.info <;>
            simp [handlerRuns, invocations, completions, same, here]
      | _ => rfl
  exact counted events (List.Subset.refl _)

theorem deletions_runs (run : Run (machine cfg) allowed events process) (ctrl : Controller) :
    deletions ctrl events = (handlerRuns ctrl events).map Prod.fst := by
  refine Steps.invariant (fun events _ =>
    deletions ctrl events = (handlerRuns ctrl events).map Prod.fst) rfl ?_ run
  intro events process action emitted after _ known _ fired
  have step : deletions ctrl emitted = (handlerRuns ctrl emitted).map Prod.fst := by
    by_cases touches : ∃ worker other, (∃ outcome, .completed worker other outcome ∈ emitted) ∨
        .deleted worker other ∈ emitted
    · obtain ⟨worker, other, touched⟩ := touches
      obtain ⟨cmd, eventId, outcome, -, -, -, shape⟩ := completion_move (step_move fired) touched
      by_cases same : other = ctrl <;> simp [shape, deletions, handlerRuns, same]
    · simp only [not_exists, not_or] at touches
      have none_deleted : deletions ctrl emitted = [] := by
        refine List.filterMap_eq_nil_iff.mpr (fun event member => ?_)
        cases event with
        | deleted worker other => exact absurd member (touches worker other).2
        | _ => rfl
      have none_run : handlerRuns ctrl emitted = [] := by
        refine List.filterMap_eq_nil_iff.mpr (fun event member => ?_)
        cases event with
        | completed worker other outcome => exact absurd member ((touches worker other).1 outcome)
        | _ => rfl
      rw [none_deleted, none_run]
      rfl
  have first : deletions ctrl (events ++ emitted) =
      deletions ctrl events ++ deletions ctrl emitted :=
    List.filterMap_append ..
  have second : handlerRuns ctrl (events ++ emitted) =
      handlerRuns ctrl events ++ handlerRuns ctrl emitted := List.filterMap_append ..
  rw [first, second, List.map_append, known, step]

end Counts

/-! ## The end of the run -/

section End
variable {cfg : Config} {process : Process} {events : List Event}
  {allowed : Process → Action → Prop}

theorem settled_of_run (run : Run (machine cfg) (Settled cfg) events process)
    (joined : Joined process) : Finishing cfg process ∧
      (∀ worker eventId, leftover cfg (process.workers worker) eventId = none) ∧
      ∀ thread, unreadWork process thread = [] := by
  refine Steps.invariant (fun _ process => Joined process → Finishing cfg process ∧
    (∀ worker eventId, leftover cfg (process.workers worker) eventId = none) ∧
    ∀ thread, unreadWork process thread = []) ?_ ?_ run joined
  · intro joined
    rcases joined with stage | stage <;> cases stage
  · intro events process action emitted after earlier known permitted fired joined
    have later : Joined process → Finishing cfg after ∧
        (∀ worker eventId, leftover cfg (after.workers worker) eventId = none) ∧
        ∀ thread, unreadWork after thread = [] := by
      intro before
      obtain ⟨finishing, pending, unread⟩ := known before
      have move := joined_move earlier before (step_move fired)
      obtain ⟨samePending, sameUnread⟩ := joined_kept move
      refine ⟨finishing_step finishing move, fun worker eventId => ?_, fun thread => ?_⟩
      · rw [samePending]
        exact pending worker eventId
      · rw [sameUnread]
        exact unread thread
    rcases shutdown_move (step_move fired) with ⟨same, -⟩ | ⟨-, -, stage⟩ | ⟨rfl, -, -⟩ |
      ⟨-, joining, -⟩
    · rw [Joined, same] at joined
      exact later joined
    · rcases joined with early | early <;> simp [stage] at early
    · obtain ⟨unread, pending⟩ := permitted
      obtain ⟨samePending, sameUnread⟩ := join_kept fired
      refine ⟨(finishing_join earlier fired).1, fun worker eventId => ?_, fun thread => ?_⟩
      · rw [samePending]
        exact pending worker eventId
      · rw [sameUnread]
        exact unread thread
    · exact later (.inl joining)

theorem queue_legal (run : Run (machine cfg) allowed events process) {worker : Nat}
    {cmd : WorkerCmd} (waiting : cmd ∈ (process.workers worker).queue) : worker < cfg.workers := by
  have listed : cmd ∈ queuedFor worker events := by
    rw [delivered_of_run run worker]
    exact List.mem_append_left _ (List.mem_append_right _ waiting)
  obtain ⟨event, member, shown⟩ := List.mem_filterMap.mp listed
  cases event <;> simp at shown
  obtain ⟨rfl, rfl⟩ := shown
  exact queued_legal run member

section Destroyed
variable (run : Run (machine cfg) allowed events process) (finishing : Finishing cfg process)
  (destroyed : process.shutdown = .destroyed)
include run finishing destroyed

theorem queue_ended (worker : Nat) : (process.workers worker).queue = [] := by
  by_cases legal : worker < cfg.workers
  · rcases finishing.last worker legal with ⟨running, -⟩ | ⟨-, empty⟩
    · rw [finishing.stopped destroyed worker legal] at running
      cases running
    · exact empty
  · exact List.eq_nil_iff_forall_not_mem.mpr (fun cmd waiting => legal (queue_legal run waiting))

theorem queued_begun : (queued events).Perm (begun events) := by
  refine perm_of_entries fun worker => ?_
  have performed := (exited_of_run run (.inr destroyed)).2
  rw [entriesOf_queued, entriesOf_begun, delivered_of_run run worker,
    queue_ended run finishing destroyed worker, performed]
  simp [outgoing]

omit finishing in
theorem live_ended : process.broker.phase ≠ .faulted := by
  rw [(exited_of_run run (.inr destroyed)).1]
  decide

theorem readWork_begun :
    ((readWork events).map Prod.snd).Perm ((begun events).map Prod.snd) := by
  rw [← queued_eq_read run (live_ended run destroyed)]
  exact (queued_begun run finishing destroyed).map Prod.snd

theorem pending_ended (worker : Nat) :
    leftover cfg (process.workers worker) = (process.workers worker).pending := by
  rw [leftover, queue_ended run finishing destroyed worker]
  rfl

theorem begun_of_read {ctrl : Controller} {thread : Thread}
    (member : (thread, .request ctrl) ∈ readWork events) :
    ∃ worker, .startRpc ctrl ∈ processed worker events := by
  have listed := (readWork_begun run finishing destroyed).subset (List.mem_map.mpr ⟨_, member, rfl⟩)
  obtain ⟨⟨worker, work⟩, inside, same⟩ := List.mem_map.mp listed
  cases same
  have entry := mem_entriesOf.mpr inside
  rw [entriesOf_begun] at entry
  obtain ⟨cmd, taken, carried⟩ := List.mem_filterMap.mp entry
  cases cmd with
  | startRpc other =>
    cases carried
    exact ⟨worker, taken⟩
  | _ => cases carried

theorem completed_or_pending (few : process.requests < 2 ^ 64) {ctrl : Controller} {thread : Thread}
    (member : (thread, .request ctrl) ∈ readWork events) :
    (handlerRuns ctrl events).length = 1 ∨
      ∃ worker, (process.workers worker).pending ctrl.eventId = some ctrl := by
  obtain ⟨worker, begun⟩ := begun_of_read run finishing destroyed member
  obtain ⟨request, made, rfl, home⟩ := issued_of_processed run begun
  subst home
  have opened : .opening request.ctrl.eventId request.ctrl ∈
      opsOf cfg (processed (cfg.getWorkerIndex request.info) events) :=
    List.mem_filterMap.mpr ⟨_, begun, rfl⟩
  have only : ∀ other, .opening request.ctrl.eventId other ∈
      opsOf cfg (processed (cfg.getWorkerIndex request.info) events) → other = request.ctrl := by
    intro other listed
    obtain ⟨cmd, taken, kind⟩ := List.mem_filterMap.mp listed
    obtain ⟨rfl, key⟩ := exec_opening cfg kind
    exact controller_unique run few taken begun key.symm
  rcases replay_started (fun _ => none) opened only with held | ⟨delivery, delivered, entry⟩
  · right
    refine ⟨cfg.getWorkerIndex request.info, ?_⟩
    rw [(replayed_of_run run _).1]
    exact held
  · left
    have listed : (request.ctrl, delivery.value) ∈
        completions (cfg.getWorkerIndex request.info) events := by
      rw [(replayed_of_run run _).2]
      exact List.mem_map.mpr ⟨delivery, delivered, by rw [entry]⟩
    have invoked : delivery.value ∈
        invocations request.ctrl (cfg.getWorkerIndex request.info) events :=
      List.mem_map.mpr ⟨_, List.mem_filter.mpr ⟨listed, by simp⟩, rfl⟩
    have some_run := List.length_pos_of_mem invoked
    have one := runs_or_pending run (live_ended run destroyed)
      (cfg.getWorkerIndex request.info) request.ctrl
    rw [handlerRuns_home run made]
    omega

end Destroyed

theorem requested_accepted {thread : Thread} {info : ConnectionInfo} {ctrl : Controller}
    (member : .requested thread info ctrl ∈ events) : (thread, .request ctrl) ∈ accepted events :=
  List.mem_filterMap.mpr ⟨_, member, rfl⟩

theorem accepted_requested {thread : Thread} {ctrl : Controller}
    (member : (thread, .request ctrl) ∈ accepted events) :
    ∃ info, .requested thread info ctrl ∈ events := by
  obtain ⟨event, inside, shown⟩ := List.mem_filterMap.mp member
  cases event <;> simp at shown
  obtain ⟨rfl, rfl⟩ := shown
  exact ⟨_, inside⟩

theorem completed_of_settled (run : Run (machine cfg) (Settled cfg) events process)
    (few : process.requests < 2 ^ 64) (destroyed : process.shutdown = .destroyed) :
    WorkCompleted events := by
  obtain ⟨finishing, pending, unread⟩ := settled_of_run run (.inr destroyed)
  have arrived : (accepted events).Perm (readWork events) := by
    refine perm_of_entries fun thread => ?_
    have nothing : (process.pipes thread).filterMap workOf = [] := unread thread
    rw [carried_of_run run thread, nothing, List.append_nil]
  have runs : ∀ thread info ctrl, .requested thread info ctrl ∈ events →
      (handlerRuns ctrl events).length = 1 := by
    intro thread info ctrl member
    rcases completed_or_pending run finishing destroyed few
      (arrived.subset (requested_accepted member)) with once | ⟨worker, held⟩
    · exact once
    · rw [← pending_ended run finishing destroyed, pending] at held
      cases held
  constructor
  · intro closure
    have whole : ((accepted events).map Prod.snd).Perm ((begun events).map Prod.snd) :=
      (arrived.map Prod.snd).trans (readWork_begun run finishing destroyed)
    rw [ran_begun run, added_accepted]
    exact ((whole.filterMap closureOf).count_eq closure).symm
  · exact runs
  · intro thread info ctrl member
    rw [deletions_runs run, List.length_map]
    exact runs thread info ctrl member

theorem accepted_of_handled (run : Run (machine cfg) allowed events process) {request : Issued}
    (handled : request ∈ handledRequests events) :
    ∃ thread info, .requested thread info request.ctrl ∈ events := by
  obtain ⟨event, member, shown⟩ := List.mem_filterMap.mp handled
  cases event with
  | handled sender cmd =>
    cases cmd with
    | request info ctrl data =>
      cases shown
      have entry : Work.request ctrl ∈ entriesOf sender (readWork events) :=
        mem_entriesOf.mpr (List.mem_filterMap.mpr ⟨_, member, rfl⟩)
      have listed : Work.request ctrl ∈ entriesOf sender (accepted events) := by
        rw [carried_of_run run sender]
        exact List.mem_append_left _ entry
      obtain ⟨target, requested⟩ := accepted_requested (mem_entriesOf.mp listed)
      exact ⟨sender, target, requested⟩
    | _ => cases shown
  | _ => cases shown

theorem unread_closure (run : Run (machine cfg) allowed events process)
    (finishing : Finishing cfg process) (destroyed : process.shutdown = .destroyed)
    {thread : Thread}
    {closure : Nat} (unread : .closure closure ∈ unreadWork process thread) :
    (ran events).count closure < (added events).count closure := by
  obtain ⟨extra, whole, rest⟩ := split_of_entries (carried_of_run run)
  have left : (thread, Work.closure closure) ∈ extra :=
    mem_entriesOf.mp ((rest thread).symm.subset unread)
  have some_left : 0 < (closuresIn extra).count closure := by
    refine List.count_pos_iff.mpr (List.mem_filterMap.mpr ⟨.closure closure, ?_, rfl⟩)
    exact List.mem_map.mpr ⟨_, left, rfl⟩
  have total : (closuresIn (accepted events)).count closure =
      (closuresIn (readWork events)).count closure + (closuresIn extra).count closure := by
    rw [← List.count_append, closuresIn, closuresIn, closuresIn, ← List.filterMap_append,
      ← List.map_append]
    exact (((whole.map Prod.snd).filterMap closureOf).count_eq closure).symm
  have begins : (closuresIn (begun events)).count closure =
      (closuresIn (readWork events)).count closure :=
    (((readWork_begun run finishing destroyed).filterMap closureOf).count_eq closure).symm
  rw [ran_begun run, added_accepted, begins, total]
  omega

theorem unread_request (run : Run (machine cfg) allowed events process) {thread : Thread}
    {ctrl : Controller} (unread : .request ctrl ∈ unreadWork process thread) :
    (∃ info, .requested thread info ctrl ∈ events) ∧ handlerRuns ctrl events = [] := by
  have listed : Work.request ctrl ∈ entriesOf thread (accepted events) := by
    rw [carried_of_run run thread]
    exact List.mem_append_right _ unread
  refine ⟨accepted_requested (mem_entriesOf.mp listed), ?_⟩
  obtain ⟨cmd, waiting, carried⟩ := List.mem_filterMap.mp unread
  cases cmd with
  | request info other data =>
    cases carried
    have travels : (⟨thread, info, ctrl⟩ : Issued) ∈
        requestsIn thread (process.pipes thread) :=
      List.mem_filterMap.mpr ⟨_, waiting, rfl⟩
    have fresh := ((ledger_of_run run).travelling_fresh (List.mem_append_left _ travels)).2
    refine List.filterMap_eq_nil_iff.mpr (fun event member => ?_)
    cases event with
    | completed worker done outcome =>
      by_cases same : done = ctrl
      · subst same
        obtain ⟨target, -, ⟨sender, handled⟩, -⟩ :=
          started_of_processed run (begun_of_completed run member)
        exact absurd (List.mem_map.mpr ⟨_, handled, rfl⟩) fresh
      · simp [same]
    | _ => rfl
  | _ => cases carried

theorem pending_request (run : Run (machine cfg) allowed events process)
    (live : process.broker.phase ≠ .faulted) {worker : Nat} {eventId : UInt64} {ctrl : Controller}
    (held : (process.workers worker).pending eventId = some ctrl) :
    (∃ thread info, .requested thread info ctrl ∈ events) ∧ handlerRuns ctrl events = [] := by
  obtain ⟨own, begun⟩ := started_of_pending run held
  obtain ⟨target, -, ⟨sender, handled⟩, -⟩ := started_of_processed run begun
  obtain ⟨request, made, rfl, home⟩ := issued_of_processed run begun
  have listed := accepted_of_handled run handled
  refine ⟨listed, ?_⟩
  subst home own
  have one := runs_or_pending run live (cfg.getWorkerIndex request.info) request.ctrl
  rw [isHeld, if_pos held] at one
  rw [← List.length_eq_zero_iff, handlerRuns_home run made]
  omega

theorem uncompleted_of_unsettled {after final : Process} {emitted more : List Event}
    (run : Run (machine cfg) anyStep events process)
    (fired : (machine cfg).step process .joinBroker = some (after, emitted))
    (unsettled : ¬ Settled cfg process .joinBroker)
    (steps : Steps (machine cfg) anyStep after more final)
    (destroyed : final.shutdown = .destroyed) : ¬ WorkCompleted (events ++ emitted ++ more) := by
  intro completed
  have next : Run (machine cfg) anyStep (events ++ emitted) after := run.next trivial fired
  have whole := next.trans steps
  obtain ⟨finishing, joined⟩ := finishing_join run fired
  obtain ⟨finished, -, pending, unread⟩ := joined_of_steps next finishing joined steps
  obtain ⟨joinedPending, joinedUnread⟩ := join_kept fired
  have live := live_ended whole destroyed
  have undone : ∀ {thread info ctrl}, .requested thread info ctrl ∈ events ++ emitted ++ more →
      handlerRuns ctrl (events ++ emitted ++ more) = [] → False := by
    intro thread info ctrl made none_run
    have once := completed.handlers thread info ctrl made
    rw [none_run] at once
    cases once
  by_cases settled : ∀ thread, unreadWork process thread = []
  · have left : ∃ worker eventId ctrl,
        leftover cfg (process.workers worker) eventId = some ctrl := by
      by_contra nothing
      refine unsettled ⟨settled, fun worker eventId => ?_⟩
      cases found : leftover cfg (process.workers worker) eventId with
      | none => rfl
      | some ctrl => exact absurd ⟨worker, eventId, ctrl, found⟩ nothing
    obtain ⟨worker, eventId, ctrl, found⟩ := left
    rw [← joinedPending, ← pending, pending_ended whole finished destroyed] at found
    obtain ⟨⟨thread, info, made⟩, none_run⟩ := pending_request whole live found
    exact undone made none_run
  · simp only [not_forall] at settled
    obtain ⟨thread, some_left⟩ := settled
    rw [← joinedUnread, ← unread] at some_left
    obtain ⟨work, waiting⟩ := List.exists_mem_of_ne_nil _ some_left
    cases work with
    | closure closure =>
      have fewer := unread_closure whole finished destroyed waiting
      rw [completed.closures closure] at fewer
      exact Nat.lt_irrefl _ fewer
    | request ctrl =>
      obtain ⟨⟨info, made⟩, none_run⟩ := unread_request whole waiting
      exact undone made none_run

end End

/-- Nothing is unread when as much was read as accepted, and nothing is left
pending when the queues are empty and every started request is closed. -/
theorem settled_of_check {cfg : Config} {process : Process} {events : List Event}
    {allowed : Process → Action → Prop} (run : Run (machine cfg) allowed events process)
    (same : (accepted events).length = (readWork events).length)
    (empty : ∀ worker < cfg.workers, (process.workers worker).queue = [])
    (closed : events.all (fun
      | .popped worker (.startRpc ctrl) =>
        ((process.workers worker).pending ctrl.eventId).isNone
      | _ => true) = true) : Settled cfg process .joinBroker := by
  constructor
  · obtain ⟨extra, whole, rest⟩ := split_of_entries (carried_of_run run)
    have nothing : extra = [] := by
      have lengths := whole.length_eq
      rw [List.length_append, same] at lengths
      exact List.length_eq_zero_iff.mp (by omega)
    subst nothing
    exact fun thread => (rest thread).symm.eq_nil
  · intro worker eventId
    have idle : (process.workers worker).queue = [] := by
      by_cases legal : worker < cfg.workers
      · exact empty worker legal
      · refine List.eq_nil_iff_forall_not_mem.mpr (fun cmd waiting => legal ?_)
        exact queue_legal run waiting
    have left : leftover cfg (process.workers worker) = (process.workers worker).pending := by
      rw [leftover, idle]
      rfl
    rw [left]
    cases held : (process.workers worker).pending eventId with
    | none => rfl
    | some ctrl =>
      obtain ⟨rfl, begun⟩ := started_of_pending run held
      have free := List.all_eq_true.mp closed _ (mem_processed.mp begun)
      simp [held] at free

/-- A shutdown completes the accepted work exactly if it is settled when the
broker is joined. -/
theorem shutdown_completes (cfg : Config) :
    (∀ events process, Run (machine cfg) (Settled cfg) events process →
      process.requests < 2 ^ 64 → process.shutdown = .destroyed → WorkCompleted events) ∧
    ∀ events process after emitted more final, Run (machine cfg) anyStep events process →
      (machine cfg).step process .joinBroker = some (after, emitted) →
      ¬ Settled cfg process .joinBroker → Steps (machine cfg) anyStep after more final →
      final.shutdown = .destroyed → ¬ WorkCompleted (events ++ emitted ++ more) := by
  constructor
  · intro events process run few destroyed
    exact completed_of_settled run few destroyed
  · intro events process after emitted more final run fired unsettled steps destroyed
    exact uncompleted_of_unsettled run fired unsettled steps destroyed

/-- Thread 0 connects and makes a request with a deadline; the broker reads it. -/
def asked : List Action :=
  [.thread (.app 0) (.connect [1])] ++ commandTurn 1 ++
  [.thread (.app 0) .receive, .thread (.app 0) (.request (.dealer 1) [] [] [] (some 0) 5),
    .thread (.app 0) (.sendRequest true), .loopTop, .timers 0, .poll (.ready [true, false]),
    .dispatch (.frontend (.app 0) ⟨true, 0, 0⟩), .flush, .flush, .dispatch .nothing,
    .dispatch .nothing]

/-- Thread 0 releases the last reference, and the broker leaves its loop. -/
def quits : List Action :=
  [.release 0, .loopTop, .timers 0, .poll (.ready [true, false]),
    .dispatch (.frontend (.app 0) ⟨true, 0, 0⟩), .dispatch .nothing, .dispatch .nothing, .loopTop]

/-- A request that waits for its response is never completed. -/
theorem shutdown_drops : ¬ ∀ cfg events process, Run (machine cfg) anyStep events process →
    process.shutdown = .destroyed → WorkCompleted events := by
  intro claim
  have completed := claim plain _ _
    (run_reached (machine plain)
      (asked ++ quits ++ [.joinBroker, .worker 0, .worker 0, .joinWorkers]))
    (by decide +kernel)
  have made : .requested (.app 0) (.dealer 1) ⟨0, 1, some 0, 5⟩ ∈ (reached (machine plain)
      (asked ++ quits ++ [.joinBroker, .worker 0, .worker 0, .joinWorkers])).2 := by decide +kernel
  have once := completed.handlers _ _ _ made
  revert once
  decide +kernel

/-- The response arrives, a closure is added, and everything is executed in time. -/
def answered : List Action :=
  asked ++ [.loopTop, .timers 0, .poll (.ready [false, true]), .dispatch .nothing,
    .dispatch (.message ([] :: replyFrames protobuf 1 [9])), .flush, .dispatch .nothing,
    .thread (.app 0) (.add 3)] ++ commandTurn 2 ++ quits ++
  [.worker 0, .worker 0, .worker 0]

def Unjoined (_ : Process) (action : Action) : Prop := action ≠ .joinBroker

instance (process : Process) (action : Action) : Decidable (Unjoined process action) :=
  inferInstanceAs (Decidable (_ ≠ _))

theorem settled_of_unjoined (cfg : Config) (process : Process) (action : Action)
    (unjoined : Unjoined process action) : Settled cfg process action := by
  cases action with
  | joinBroker => exact absurd rfl unjoined
  | _ => exact trivial

/-- A shutdown that finds the request answered and the closure queued, and one
that finds the request unanswered. -/
theorem shutdown_completes_answered :
    (∃ events process, Run (machine plain) (Settled plain) events process ∧
      process.shutdown = .destroyed ∧ .added (.app 0) 3 ∈ events ∧ WorkCompleted events) ∧
    ∃ events process, Run (machine plain) anyStep events process ∧
      process.shutdown = .destroyed ∧ ¬ WorkCompleted events := by
  have parts := shutdown_completes plain
  constructor
  · let joinable := reached ((machine plain).guarded Unjoined) answered
    have free : Run (machine plain) (Settled plain) joinable.2 joinable.1 :=
      (Steps.of_guarded (run_reached ((machine plain).guarded Unjoined) answered)).mono
        (settled_of_unjoined plain)
    have settled : Settled plain joinable.1 .joinBroker :=
      settled_of_check free (by decide +kernel) (by decide +kernel) (by decide +kernel)
    have join : (machine plain).step joinable.1 .joinBroker = some (_, _) :=
      step_of_enabled (by decide +kernel) rfl
    let joined := (((machine plain).step joinable.1 .joinBroker).getD (joinable.1, [])).1
    have later := (Steps.of_guarded (steps_reachedFrom ((machine plain).guarded Unjoined) joined
      [.worker 0, .joinWorkers])).mono (settled_of_unjoined plain)
    have whole := (free.next settled join).trans later
    exact ⟨_, _, whole, by decide +kernel, by decide +kernel,
      parts.1 _ _ whole (by decide +kernel) (by decide +kernel)⟩
  · have run := run_reached (machine plain) (asked ++ quits)
    have join : (machine plain).step (reached (machine plain) (asked ++ quits)).1 .joinBroker =
        some (_, _) := step_of_enabled (by decide +kernel) rfl
    have unsettled : ¬ Settled plain (reached (machine plain) (asked ++ quits)).1 .joinBroker := by
      intro settled
      have held := settled.2 0 1
      revert held
      decide +kernel
    let waiting := reached (machine plain) (asked ++ quits)
    let joined := (((machine plain).step waiting.1 .joinBroker).getD (waiting.1, [])).1
    have later := steps_reachedFrom (machine plain) joined [.worker 0, .worker 0, .joinWorkers]
    exact ⟨_, _, (run.next trivial join).trans later, by decide +kernel,
      parts.2 _ _ _ _ _ _ run join unsettled later (by decide +kernel)⟩

end Rpcz.ShutdownWork
