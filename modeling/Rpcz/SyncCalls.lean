import Rpcz.ContextTeardown
import Rpcz.Deadlines
import Rpcz.RequestTimers
import Rpcz.ResponseSource
import Rpcz.SocketUse
import Rpcz.WaitChains

/-!
sync_requester.cc: a thread makes a request and waits in `sync_call_handler`
until the response handler has run. The handler runs in the worker of the
connection, which may itself be waiting in a sync call.
-/

namespace Rpcz.SyncCalls
open Automaton Message EventLog WorkerThread BrokerThread Moves PendingTable History PendingMap
  EventIds RequestLog Completion ResponseSource HeaderCodec WaitChains Deadlines
open ProcessModel hiding Action machine
open ContextTeardown (actor)
open SocketUse (commandTurn)

/-- The request a thread waits for in `sync_requester::request`. -/
structure SyncCall where
  info : ConnectionInfo
  ctrl : Controller
deriving DecidableEq

/-- `waiting` is the call whose `sync_event` a thread waits for. -/
structure Synced where
  process : Process
  waiting : Thread → Option SyncCall

inductive Action where
  | process (action : ProcessModel.Action)
  /-- `sync_requester::request` writes the request and begins to wait. -/
  | request (thread : Thread)
deriving DecidableEq

/-- Running the handler of the call signals its event. -/
def signals (call : SyncCall) : Event → Bool
  | .completed _ ctrl _ => ctrl = call.ctrl
  | _ => false

def unsignalled (waiting : Thread → Option SyncCall) (events : List Event) :
    Thread → Option SyncCall :=
  fun thread => (waiting thread).filter (fun call => !events.any (signals call))

def Synced.isBlocked (state : Synced) (action : ProcessModel.Action) : Bool :=
  (actor action).any (fun thread => (state.waiting thread).isSome)

def Synced.step (cfg : Config) (state : Synced) : Action → Option (Synced × List Event)
  | .process action =>
    if state.isBlocked action then none
    else (state.process.step cfg action).map fun result =>
      (⟨result.1, unsignalled state.waiting result.2⟩, result.2)
  | .request thread =>
    match state.waiting thread, state.process.calls thread with
    | none, .requesting info ctrl _ =>
      if ctrl.handler.isSome then
        (state.process.step cfg (.thread thread (.sendRequest true))).map fun result =>
          (⟨result.1, Function.update state.waiting thread (some ⟨info, ctrl⟩)⟩, result.2)
      else none
    | _, _ => none

def machine (cfg : Config) : Machine Synced Action Event :=
  ⟨⟨Process.new, fun _ => none⟩, Synced.step cfg⟩

/-- A thread waits for the worker that executes the commands of its connection. -/
def Synced.waits (cfg : Config) (state : Synced) : Thread → Option Thread :=
  fun thread => (state.waiting thread).map (fun call => .worker (cfg.getWorkerIndex call.info))

/-- A thread makes a sync call only on a connection whose worker does not wait
for that thread, directly or through others. -/
def Unentangled (cfg : Config) (state : Synced) : Action → Prop
  | .process _ => True
  | .request thread => ∀ info ctrl data, state.process.calls thread = .requesting info ctrl data →
      ¬ Reaches (state.waits cfg) (.worker (cfg.getWorkerIndex info)) thread

section Steps
variable {cfg : Config} {state after : Synced} {events emitted : List Event} {action : Action}
  {allowed : Synced → Action → Prop}

inductive SyncMove (cfg : Config) (state : Synced) : Action → Synced → List Event → Prop where
  | process (action : ProcessModel.Action) (process : Process) (emitted : List Event)
      (free : ∀ thread, actor action = some thread → state.waiting thread = none)
      (move : Move cfg state.process action process emitted) :
      SyncMove cfg state (.process action) ⟨process, unsignalled state.waiting emitted⟩ emitted
  | request (thread : Thread) (info : ConnectionInfo) (ctrl : Controller) (data : List Frame)
      (free : state.waiting thread = none)
      (inside : state.process.calls thread = .requesting info ctrl data)
      (running : state.process.shutdown = .running) :
      SyncMove cfg state (.request thread)
        ⟨(state.process.write thread [.request info ctrl data]).setCall thread .idle,
          Function.update state.waiting thread (some ⟨info, ctrl⟩)⟩
        [.requested thread info ctrl]

theorem sync_move (fired : (machine cfg).step state action = some (after, emitted)) :
    SyncMove cfg state action after emitted := by
  cases action with
  | process action =>
    simp only [machine, Synced.step] at fired
    split at fired
    · cases fired
    · next open_now =>
      obtain ⟨⟨process, events⟩, done, same⟩ := Option.map_eq_some_iff.mp fired
      cases same
      refine .process action process _ (fun thread acts => ?_) (step_move done)
      simp only [Synced.isBlocked, acts, Option.any_some, Bool.not_eq_true,
        Option.isSome_eq_false_iff, Option.isNone_iff_eq_none] at open_now
      exact open_now
  | request thread =>
    simp only [machine, Synced.step] at fired
    split at fired
    · next info ctrl data free inside =>
      split at fired
      · obtain ⟨⟨process, events⟩, done, same⟩ := Option.map_eq_some_iff.mp fired
        cases same
        simp only [Process.step, Process.threadStep, inside] at done
        split at done
        · next running =>
          cases done
          exact .request thread info ctrl data free inside running
        · cases done
      · cases fired
    · cases fired

theorem unsignalled_some {waiting : Thread → Option SyncCall} {thread : Thread} {call : SyncCall} :
    unsignalled waiting events thread = some call ↔
      waiting thread = some call ∧ ∀ worker outcome, .completed worker call.ctrl outcome ∉ events := by
  simp only [unsignalled, Option.filter_eq_some_iff, Bool.not_eq_true', List.any_eq_false]
  refine and_congr_right (fun _ => ⟨fun silent worker outcome member => ?_, fun silent event member => ?_⟩)
  · simpa [signals] using silent _ member
  · cases event with
    | completed worker ctrl outcome =>
      simp only [signals, decide_eq_true_eq]
      rintro rfl
      exact silent _ _ member
    | _ => simp [signals]

theorem process_of_run (run : Run (machine cfg) allowed events state) :
    Run (ProcessModel.machine cfg) anyStep events state.process := by
  refine Steps.invariant (fun events state =>
    Run (ProcessModel.machine cfg) anyStep events state.process) .refl ?_ run
  intro events state action emitted after _ earlier _ fired
  cases action with
  | process action =>
    simp only [machine, Synced.step] at fired
    split at fired
    · cases fired
    · obtain ⟨result, done, same⟩ := Option.map_eq_some_iff.mp fired
      cases same
      exact earlier.next trivial done
  | request thread =>
    simp only [machine, Synced.step] at fired
    split at fired
    · split at fired
      · obtain ⟨result, done, same⟩ := Option.map_eq_some_iff.mp fired
        cases same
        have sent : (ProcessModel.machine cfg).step state.process
          (.thread thread (.sendRequest true)) = some result := done
        exact earlier.next trivial sent
      · cases fired
    · cases fired

/-- A call that is waited for was made by the thread and is not completed. -/
def Pending (events : List Event) (state : Synced) : Prop :=
  ∀ thread call, state.waiting thread = some call →
    ⟨thread, call.info, call.ctrl⟩ ∈ issued events ∧
      ∀ worker outcome, .completed worker call.ctrl outcome ∉ events

theorem pending_of_run (run : Run (machine cfg) allowed events state) : Pending events state := by
  refine Steps.invariant Pending (fun _ _ none_waits => by cases none_waits) ?_ run
  intro events state action emitted after earlier pending _ fired thread call waiting
  have process := process_of_run earlier
  cases sync_move fired with
  | process action result emitted free move =>
    obtain ⟨before, silent⟩ := unsignalled_some.mp waiting
    obtain ⟨made, open_yet⟩ := pending thread call before
    refine ⟨by rw [issued_append]; exact List.mem_append_left _ made, fun worker outcome member => ?_⟩
    rcases List.mem_append.mp member with old | new
    · exact open_yet worker outcome old
    · exact silent worker outcome new
  | request other info ctrl data free inside running =>
    by_cases here : thread = other
    · subst here
      simp only [Function.update_self, Option.some.injEq] at waiting
      subst waiting
      have travels : (⟨thread, info, ctrl⟩ : Issued) ∈
          requestOf thread (state.process.calls thread) := by simp [inside, requestOf]
      obtain ⟨made, fresh⟩ :=
        (ledger_of_run process).travelling_fresh (List.mem_append_right _ travels)
      refine ⟨by rw [issued_append]; exact List.mem_append_left _ made,
        fun worker outcome member => ?_⟩
      rcases List.mem_append.mp member with old | new
      · obtain ⟨target, -, ⟨sender, handled⟩, -⟩ :=
          started_of_processed process (begun_of_completed process old)
        exact fresh (List.mem_map.mpr ⟨_, handled, rfl⟩)
      · simp at new
    · simp only [Function.update_of_ne here] at waiting
      obtain ⟨made, open_yet⟩ := pending thread call waiting
      refine ⟨by rw [issued_append]; exact List.mem_append_left _ made,
        fun worker outcome member => ?_⟩
      rcases List.mem_append.mp member with old | new
      · exact open_yet worker outcome old
      · simp at new

theorem released_by_home (run : Run (machine cfg) allowed events state)
    (fired : (machine cfg).step state action = some (after, emitted)) {thread : Thread}
    {call : SyncCall} (waiting : state.waiting thread = some call) :
    after.waiting thread = some call ∨
      action = .process (.worker (cfg.getWorkerIndex call.info)) := by
  have process := process_of_run run
  cases sync_move fired with
  | process action result emitted free move =>
    by_cases silent : ∀ worker outcome, .completed worker call.ctrl outcome ∉ emitted
    · exact .inl (unsignalled_some.mpr ⟨waiting, silent⟩)
    · simp only [not_forall, not_not] at silent
      obtain ⟨worker, outcome, member⟩ := silent
      obtain ⟨cmd, eventId, given, -, -, held, -⟩ := completion_move move (.inl ⟨outcome, member⟩)
      have made := (pending_of_run run thread call waiting).1
      obtain ⟨-, home⟩ := pending_home process made held
      obtain ⟨index, cmd', rest, ran, acts, -, same, -, shape⟩ := worker_move move member (.inr rfl)
      rw [shape] at member
      have here : worker = index := by
        rcases List.mem_cons.mp member with first | later
        · cases first
        · rw [← same] at later
          exact (exec_completes cfg _ index _ _ cmd' worker call.ctrl (.inl ⟨outcome, later⟩)).1
      exact .inr (by rw [acts, ← home, here])
  | request other info ctrl data free inside running =>
    have apart : thread ≠ other := by
      rintro rfl
      rw [free] at waiting
      cases waiting
    exact .inl ((Function.update_of_ne apart ..).trans waiting)

/-! ## Circles -/

theorem waits_some {thread other : Thread} (edge : state.waits cfg thread = some other) :
    ∃ call, state.waiting thread = some call ∧ other = .worker (cfg.getWorkerIndex call.info) := by
  obtain ⟨call, waiting, same⟩ := Option.map_eq_some_iff.mp edge
  exact ⟨call, waiting, same.symm⟩

theorem waits_none {thread : Thread} :
    state.waits cfg thread = none ↔ state.waiting thread = none := Option.map_eq_none_iff

theorem waits_congr (same : after.waiting = state.waiting) : after.waits cfg = state.waits cfg := by
  funext thread
  simp only [Synced.waits, same]

theorem waits_process {action : ProcessModel.Action}
    (fired : (machine cfg).step state (.process action) = some (after, emitted)) {thread other : Thread}
    (edge : after.waits cfg thread = some other) : state.waits cfg thread = some other := by
  obtain ⟨call, waiting, rfl⟩ := waits_some edge
  cases sync_move fired with
  | process action result emitted free move =>
    rw [Synced.waits, (unsignalled_some.mp waiting).1]
    rfl

theorem waits_request {thread : Thread}
    (fired : (machine cfg).step state (.request thread) = some (after, emitted)) :
    ∃ info ctrl data, state.process.calls thread = .requesting info ctrl data ∧
      state.waits cfg thread = none ∧ after.waits cfg =
        Function.update (state.waits cfg) thread (some (.worker (cfg.getWorkerIndex info))) := by
  cases sync_move fired with
  | request thread info ctrl data free inside running =>
    refine ⟨info, ctrl, data, inside, waits_none.mpr free, ?_⟩
    funext other
    by_cases here : other = thread
    · subst here
      simp [Synced.waits]
    · simp [Synced.waits, Function.update_of_ne here]

/-- Finitely many threads wait, and none for itself. -/
structure Untangled (cfg : Config) (state : Synced) : Prop where
  finite : {thread | state.waits cfg thread ≠ none}.Finite
  acyclic : Acyclic (state.waits cfg)

theorem untangled_of_run (run : Run (machine cfg) (Unentangled cfg) events state) :
    Untangled cfg state := by
  refine Steps.invariant (fun _ state => Untangled cfg state) ?_ ?_ run
  · exact ⟨by simp [machine, Synced.waits], acyclic_none⟩
  · intro events state action emitted after _ untangled permitted fired
    cases action with
    | process action =>
      refine ⟨untangled.finite.subset (fun thread waiting => ?_),
        untangled.acyclic.mono (fun _ _ edge => waits_process fired edge)⟩
      obtain ⟨other, edge⟩ := Option.ne_none_iff_exists'.mp waiting
      change state.waits cfg thread ≠ none
      rw [waits_process fired edge]
      exact Option.some_ne_none _
    | request thread =>
      obtain ⟨info, ctrl, data, inside, free, same⟩ := waits_request fired
      refine ⟨(untangled.finite.insert thread).subset (fun other waiting => ?_), ?_⟩
      · by_cases here : other = thread
        · exact .inl here
        · change after.waits cfg other ≠ none at waiting
          rw [same, Function.update_of_ne here] at waiting
          exact .inr waiting
      · rw [same]
        exact untangled.acyclic.wait (permitted info ctrl data inside)

theorem circle_step (run : Run (machine cfg) allowed events state)
    (fired : (machine cfg).step state action = some (after, emitted)) {thread : Thread}
    (circle : Circular (state.waits cfg) thread) : after.waiting thread = state.waiting thread := by
  obtain ⟨next, edge⟩ := circle.waiting
  obtain ⟨call, waiting, rfl⟩ := waits_some edge
  rw [waiting]
  rcases released_by_home run fired waiting with kept | rfl
  · exact kept
  · obtain ⟨further, blocked⟩ := (circle.next edge).waiting
    cases sync_move fired with
    | process action result emitted free move =>
      rw [waits_none.mpr (free _ rfl)] at blocked
      cases blocked

theorem circle_stays (run : Run (machine cfg) anyStep events state) {thread : Thread}
    (circle : Circular (state.waits cfg) thread) {more : List Event}
    (steps : Steps (machine cfg) anyStep state more after) :
    Circular (after.waits cfg) thread ∧ after.waiting thread = state.waiting thread := by
  induction steps with
  | refl => exact ⟨circle, rfl⟩
  | next earlier permitted fired ih =>
    obtain ⟨around, same⟩ := ih
    have later := run.trans earlier
    refine ⟨around.persists (fun member on => ?_), (circle_step later fired around).trans same⟩
    rw [Synced.waits, Synced.waits, circle_step later fired on]

theorem entangled_step {thread : Thread}
    (fired : (machine cfg).step state (.request thread) = some (after, emitted))
    (entangled : ¬ Unentangled cfg state (.request thread)) :
    Circular (after.waits cfg) thread := by
  obtain ⟨info, ctrl, data, inside, free, same⟩ := waits_request fired
  rw [same]
  refine circular_of_wait free ?_
  simp only [Unentangled, not_forall, not_not] at entangled
  obtain ⟨other, held, frames, asked, back⟩ := entangled
  rw [inside] at asked
  cases asked
  exact back

end Steps

/-! ## Calls whose deadline has passed -/

/-- The broker pushes what it has decided, and the workers execute their queues. -/
def Internal (_ : Synced) : Action → Prop
  | .process .flush => True
  | .process (.worker _) => True
  | _ => False

/-- The worker goes on with its queue when it is not in a sync call: it has not
been told to quit, and the user code it runs is in no other call. -/
structure Serving (process : Process) (index : Nat) : Prop where
  running : (process.workers index).running
  idle : process.calls (.worker index) = .idle
  unquit : .quitWorker ∉ (process.workers index).queue

structure Calm (cfg : Config) (events : List Event) (state : Synced) : Prop where
  run : Run (machine cfg) anyStep events state
  few : state.process.requests < 2 ^ 64
  serving : ∀ index < cfg.workers, Serving state.process index
  pushed : timeouts state.process.broker.outbox = []

def Fewer (state after : Synced) : Prop :=
  ∀ thread call, after.waiting thread = some call → state.waiting thread = some call

theorem Fewer.none {state after : Synced} (fewer : Fewer state after) {thread : Thread}
    (free : state.waiting thread = none) : after.waiting thread = none := by
  cases waiting : after.waiting thread with
  | none => rfl
  | some call =>
    rw [fewer thread call waiting] at free
    cases free

section Deadlines
variable {cfg : Config} {state after : Synced} {events emitted : List Event}

theorem unsignalled_quiet (waiting : Thread → Option SyncCall)
    (quiet : ∀ event ∈ events, origin event ≠ .worker) : unsignalled waiting events = waiting := by
  have silent : ∀ call, events.any (signals call) = false := by
    intro call
    rw [List.any_eq_false]
    intro event member
    have apart := quiet event member
    cases event with
    | completed => exact absurd rfl apart
    | _ => simp [signals]
  funext thread
  cases held : waiting thread <;> simp [unsignalled, held, silent]

theorem unsignalled_nil (waiting : Thread → Option SyncCall) : unsignalled waiting [] = waiting :=
  unsignalled_quiet waiting (by simp)

theorem pushes_timeouts (run : Run (machine cfg) anyStep events state) :
    ∃ more after, Steps (machine cfg) Internal state more after ∧
      timeouts after.process.broker.outbox = [] ∧ after.waiting = state.waiting ∧
      after.process.requests = state.process.requests ∧
      ∀ index, Serving state.process index → Serving after.process index := by
  generalize unperformed : state.process.broker.outbox = outbox
  induction outbox generalizing state events with
  | nil => exact ⟨[], state, .refl, by rw [unperformed]; rfl, rfl, rfl, fun _ => id⟩
  | cons output rest ih =>
    by_cases nothing : timeouts (output :: rest) = []
    · exact ⟨[], state, .refl, by rw [unperformed]; exact nothing, rfl, rfl, fun _ => id⟩
    · obtain ⟨process, waiting⟩ := state
      change process.broker.outbox = output :: rest at unperformed
      have expiring : Expiring process := expiring_of_run (process_of_run run)
      obtain ⟨phase, pushes⟩ := expiring (by rw [unperformed]; exact nothing)
      rw [unperformed] at pushes
      obtain ⟨worker, eventId, rfl⟩ := pushes output (List.mem_cons_self ..)
      have fired : (machine cfg).step ⟨process, waiting⟩ (.process .flush) =
          some (⟨((process.setOutbox rest).perform (.push worker (.handleTimeout eventId))).1,
            unsignalled waiting []⟩, []) := by
        have flushed : process.flush =
            some ((process.setOutbox rest).perform (.push worker (.handleTimeout eventId))) := by
          simp only [Process.flush, phase, unperformed]
        simp only [machine, Synced.step, Process.step, flushed]
        rfl
      have permitted : Internal ⟨process, waiting⟩ (.process .flush) := trivial
      have step := Steps.single permitted fired
      rw [unsignalled_nil] at step
      obtain ⟨more, after, steps, pushed, same, requests, serves⟩ := ih (run.trans step.any) rfl
      refine ⟨[] ++ more, after, step.trans steps, pushed, same, requests, fun index serving => ?_⟩
      apply serves
      obtain ⟨queue, -, -, running⟩ := perform_workers (process.setOutbox rest)
        (.push worker (.handleTimeout eventId)) index
      refine ⟨running.trans serving.running, serving.idle, ?_⟩
      rw [queue]
      intro quits
      rcases List.mem_append.mp quits with old | new
      · exact serving.unquit old
      · obtain ⟨other, inside, shown⟩ := List.mem_filterMap.mp new
        rw [List.mem_singleton.mp inside] at shown
        simp at shown

theorem Calm.works (calm : Calm cfg events state) {index : Nat} (legal : index < cfg.workers)
    (free : state.waiting (.worker index) = none) {cmd : WorkerCmd} {rest : List WorkerCmd}
    (unread : (state.process.workers index).queue = cmd :: rest) :
    ∃ emitted after, Steps (machine cfg) Internal state emitted after ∧
      Calm cfg (events ++ emitted) after ∧ Fewer state after ∧
      (after.process.workers index).queue = rest := by
  obtain ⟨process, waiting⟩ := state
  have serving : Serving process index := calm.serving index legal
  change (process.workers index).queue = cmd :: rest at unread
  generalize done : { process.workers index with queue := rest }.exec cfg process.factories index
    process.nextService cmd = result
  have fired : (machine cfg).step ⟨process, waiting⟩ (.process (.worker index)) =
      some (⟨{ process.write (.worker index) result.writes with
          workers := Function.update process.workers index result.worker
          nextService := result.fresh },
        unsignalled waiting (.popped index cmd :: result.events)⟩,
        .popped index cmd :: result.events) := by
    have open_now : (⟨process, waiting⟩ : Synced).isBlocked (.worker index) = false := by
      simpa [Synced.isBlocked, actor] using free
    have stepped : process.workerStep cfg index = some ({ process.write (.worker index) result.writes with
          workers := Function.update process.workers index result.worker
          nextService := result.fresh }, .popped index cmd :: result.events) := by
      have enabled : index < cfg.workers ∧ (process.workers index).running ∧
          process.calls (.worker index) = .idle := ⟨legal, serving.running, serving.idle⟩
      simp only [Process.workerStep, if_pos enabled, unread, done]
    simp only [machine, Synced.step, open_now, Process.step, stepped]
    rfl
  have permitted : Internal ⟨process, waiting⟩ (.process (.worker index)) := trivial
  have step := Steps.single permitted fired
  have queue : result.worker.queue = rest := by rw [← done, exec_queue]
  have other : cmd ≠ .quitWorker := by
    rintro rfl
    exact serving.unquit (by rw [unread]; exact List.mem_cons_self ..)
  refine ⟨_, _, step, ⟨calm.run.trans step.any, calm.few, fun worker below => ?_, calm.pushed⟩,
    fun thread call kept => (unsignalled_some.mp kept).1, ?_⟩
  · by_cases here : worker = index
    · subst here
      refine ⟨?_, serving.idle, ?_⟩
      · simp only [Function.update_self]
        rw [← done, exec_running _ _ _ _ other]
        exact serving.running
      · simp only [Function.update_self, queue]
        exact fun quits => serving.unquit (by rw [unread]; exact List.mem_cons_of_mem _ quits)
    · obtain ⟨running, idle, unquit⟩ := calm.serving worker below
      refine ⟨?_, idle, ?_⟩
      · simp only [Function.update_of_ne here]
        exact running
      · simp only [Function.update_of_ne here]
        exact unquit
  · simp only [Function.update_self, queue]

theorem Calm.drain (calm : Calm cfg events state) {index : Nat} (legal : index < cfg.workers)
    (free : state.waiting (.worker index) = none) :
    ∃ more after, Steps (machine cfg) Internal state more after ∧
      Calm cfg (events ++ more) after ∧ Fewer state after ∧
      (after.process.workers index).queue = [] := by
  generalize unread : (state.process.workers index).queue = queue
  induction queue generalizing state events with
  | nil => exact ⟨[], state, .refl, by rw [List.append_nil]; exact calm, fun _ _ => id, unread⟩
  | cons cmd rest ih =>
    obtain ⟨emitted, next, step, calmer, fewer, left⟩ := calm.works legal free unread
    obtain ⟨more, final, steps, calmest, least, drained⟩ := ih calmer (fewer.none free) left
    refine ⟨emitted ++ more, final, step.trans steps, ?_, ?_, drained⟩
    · rw [← List.append_assoc]
      exact calmest
    · exact fun thread call kept => fewer thread call (least thread call kept)

theorem Calm.release (calm : Calm cfg events state) {thread : Thread} {call : SyncCall}
    (waiting : state.waiting thread = some call)
    (free : state.waiting (.worker (cfg.getWorkerIndex call.info)) = none)
    (expired : ∃ index, .timerFired call.ctrl.eventId index ∈ events) :
    ∃ more after, Steps (machine cfg) Internal state more after ∧
      Calm cfg (events ++ more) after ∧ Fewer state after ∧ after.waiting thread = none := by
  obtain ⟨more, final, steps, calmer, fewer, drained⟩ :=
    calm.drain (cfg.getWorkerIndex_lt call.info) free
  refine ⟨more, final, steps, calmer, fewer, ?_⟩
  have made := (pending_of_run calm.run thread call waiting).1
  have process := process_of_run calmer.run
  have ledger := ledger_of_run process
  have listed : ⟨thread, call.info, call.ctrl⟩ ∈ issued (events ++ more) := by
    rw [issued_append]
    exact List.mem_append_left _ made
  obtain ⟨index, fired⟩ := expired
  -- the timer was registered for the worker of the call's connection
  have home : index % cfg.workers = cfg.getWorkerIndex call.info := by
    obtain ⟨info, ctrl, started, -, same⟩ := (provenance_of_run (process_of_run calm.run)).fired _ _ fired
    obtain ⟨own, rfl⟩ := TimeoutClosure.mk.inj same
    obtain ⟨sender, other⟩ := (started.later more).issued ledger
    have equal := ledger.eventId_injective calmer.few listed other own
    cases equal
    exact Nat.mod_eq_of_lt (cfg.getWorkerIndex_lt _)
  have queued := fired_queued process (List.mem_append_left more fired)
  rw [home, delivered_of_run process, drained, List.append_nil] at queued
  cases still : final.waiting thread with
  | none => rfl
  | some other =>
    have same := fewer thread other still
    rw [waiting] at same
    cases same
    rcases List.mem_append.mp queued with taken | waits
    · obtain ⟨outcome, completed⟩ := timeout_completes process calmer.few listed taken
      exact absurd completed ((pending_of_run calmer.run thread call still).2 _ _)
    · obtain ⟨output, inside, shown⟩ := List.mem_filterMap.mp waits
      cases output <;> simp at shown
      obtain ⟨rfl, rfl⟩ := shown
      have listed := mem_timeouts.mpr inside
      rw [calmer.pushed] at listed
      cases listed

theorem Calm.unwind {thread last : Thread} (calm : Calm cfg events state)
    (path : Reaches (state.waits cfg) thread last) (ended : state.waiting last = none)
    (expired : ∀ other call, Reaches (state.waits cfg) thread other →
      state.waiting other = some call → ∃ index, .timerFired call.ctrl.eventId index ∈ events) :
    ∃ more after, Steps (machine cfg) Internal state more after ∧
      Calm cfg (events ++ more) after ∧ Fewer state after ∧ after.waiting thread = none := by
  induction path using Relation.ReflTransGen.head_induction_on with
  | refl => exact ⟨[], state, .refl, by rw [List.append_nil]; exact calm, fun _ _ => id, ended⟩
  | head edge path ih =>
    obtain ⟨more, next, steps, calmer, fewer, free⟩ := ih
      (fun other call reached => expired other call (.head edge reached))
    obtain ⟨call, waiting, rfl⟩ := waits_some edge
    cases still : next.waiting _ with
    | none => exact ⟨more, next, steps, calmer, fewer, still⟩
    | some held =>
      have same := fewer _ held still
      rw [waiting] at same
      cases same
      obtain ⟨index, fired⟩ := expired _ call .refl waiting
      obtain ⟨later, final, further, calmest, least, released⟩ :=
        calmer.release still free ⟨index, List.mem_append_left _ fired⟩
      refine ⟨more ++ later, final, steps.trans further, ?_, ?_, released⟩
      · rw [← List.append_assoc]
        exact calmest
      · exact fun thread call kept => fewer thread call (least thread call kept)

/-- The timer of the call has fired, or the clock has reached the deadline under which
it stands in `closure_run_map_`. -/
def Elapsed (events : List Event) (state : Synced) (now : UInt64) (call : SyncCall) : Prop :=
  ∃ index, .timerFired call.ctrl.eventId index ∈ events ∨
    ∃ stamp ≤ now, (stamp, ⟨call.ctrl.eventId, index⟩) ∈
      TimerPasses.entries state.process.broker.reactor.closureRunMap

theorem timers_step (phase : state.process.broker.phase = .timers)
    (performed : state.process.broker.outbox = []) (now : UInt64) :
    (machine cfg).step state (.process (.timers now)) =
      some (⟨{ state.process with broker := (state.process.broker.runTimers cfg now).1 },
          state.waiting⟩,
        (state.process.broker.runTimers cfg now).2 ++
          queuedEvents (state.process.broker.runTimers cfg now).1.outbox) := by
  have quiet : ∀ event ∈ (state.process.broker.runTimers cfg now).2 ++
      queuedEvents (state.process.broker.runTimers cfg now).1.outbox, origin event ≠ .worker := by
    intro event member
    rcases List.mem_append.mp member with fired | queued
    · rw [runTimers_origin _ _ _ _ fired]
      decide
    · rw [queuedEvents_origin _ queued]
      decide
  have stepped : state.process.step cfg (.timers now) = some
      ({ state.process with broker := (state.process.broker.runTimers cfg now).1 },
        (state.process.broker.runTimers cfg now).2 ++
          queuedEvents (state.process.broker.runTimers cfg now).1.outbox) := by
    show (if state.process.broker.phase = .timers ∧ state.process.broker.outbox = [] then _
      else _) = _
    rw [if_pos ⟨phase, performed⟩]
    rfl
  have kept := unsignalled_quiet state.waiting quiet
  simp only [machine, Synced.step, Synced.isBlocked, actor, Option.any_none, stepped,
    Option.map_some, kept]
  rfl

/-- The pass of `process_closure_run_map` that reads the clock fires the timers of elapsed
calls, and releases nobody itself. -/
theorem pass_fires (run : Run (machine cfg) anyStep events state)
    (phase : state.process.broker.phase = .timers) (performed : state.process.broker.outbox = [])
    (now : UInt64) :
    ∃ emitted next, (machine cfg).step state (.process (.timers now)) = some (next, emitted) ∧
      next.waiting = state.waiting ∧ next.process.requests = state.process.requests ∧
      (∀ index, Serving state.process index → Serving next.process index) ∧
      ∀ call, Elapsed events state now call →
        ∃ index, .timerFired call.ctrl.eventId index ∈ events ++ emitted := by
  have sorted := RequestTimers.sorted_of_run (process_of_run run)
  refine ⟨_, _, timers_step phase performed now, rfl, rfl, ?_, ?_⟩
  · intro index serving
    exact ⟨serving.running, serving.idle, serving.unquit⟩
  · intro call elapsed
    obtain ⟨index, elapsed⟩ := elapsed
    apply Exists.intro index
    rcases elapsed with before | ⟨stamp, reached, listed⟩
    · exact List.mem_append_left _ before
    · have ran : ⟨call.ctrl.eventId, index⟩ ∈
          ReactorLoop.due now state.process.broker.reactor.closureRunMap := by
        rw [(TimerPasses.entries_pass sorted now).1]
        exact List.mem_map_of_mem (f := Prod.snd)
          (List.mem_filter.mpr ⟨listed, decide_eq_true reached⟩)
      apply List.mem_append_right
      apply List.mem_append_left
      exact List.mem_map.mpr ⟨_, ran, rfl⟩

end Deadlines

/-! ## The result -/

/-- What the condition gives in a state: no worker waits for its own queue, and
the chain of every thread that waits ends at one that does not. Once the timers
of the calls along it have fired, the workers complete them unassisted; and they fire
in the pass in which the broker reads a clock that has reached the deadlines. -/
structure Completable (cfg : Config) (events : List Event) (state : Synced) : Prop where
  otherQueue : ∀ index call, state.waiting (.worker index) = some call →
    cfg.getWorkerIndex call.info ≠ index
  acyclic : Acyclic (state.waits cfg)
  ends : ∀ thread, ∃ last, Reaches (state.waits cfg) thread last ∧ state.waiting last = none
  expired : state.process.requests < 2 ^ 64 →
    (∀ index < cfg.workers, Serving state.process index) → ∀ thread,
      (∀ other call, Reaches (state.waits cfg) thread other → state.waiting other = some call →
        ∃ index, .timerFired call.ctrl.eventId index ∈ events) →
      ∃ more after, Steps (machine cfg) Internal state more after ∧ after.waiting thread = none
  elapsed : state.process.requests < 2 ^ 64 →
    (∀ index < cfg.workers, Serving state.process index) →
    state.process.broker.phase = .timers → state.process.broker.outbox = [] → ∀ now thread,
      (∀ other call, Reaches (state.waits cfg) thread other → state.waiting other = some call →
        Elapsed events state now call) →
      ∃ emitted next more after,
        (machine cfg).step state (.process (.timers now)) = some (next, emitted) ∧
        Steps (machine cfg) Internal next more after ∧ after.waiting thread = none

section Condition
variable {cfg : Config} {state : Synced} {events : List Event}

theorem ends_of_run (run : Run (machine cfg) (Unentangled cfg) events state) (thread : Thread) :
    ∃ last, Reaches (state.waits cfg) thread last ∧ state.waiting last = none := by
  have untangled := untangled_of_run run
  obtain ⟨last, path, stops⟩ := untangled.acyclic.ends untangled.finite thread
  exact ⟨last, path, waits_none.mp stops⟩

theorem released_of_expired (run : Run (machine cfg) (Unentangled cfg) events state)
    (few : state.process.requests < 2 ^ 64)
    (serving : ∀ index < cfg.workers, Serving state.process index) {thread : Thread}
    (expired : ∀ other call, Reaches (state.waits cfg) thread other →
      state.waiting other = some call → ∃ index, .timerFired call.ctrl.eventId index ∈ events) :
    ∃ more after, Steps (machine cfg) Internal state more after ∧ after.waiting thread = none := by
  obtain ⟨last, path, stops⟩ := ends_of_run run thread
  obtain ⟨more, next, steps, pushed, same, requests, serves⟩ := pushes_timeouts run.any
  have calm : Calm cfg (events ++ more) next :=
    { run := run.any.trans steps.any
      few := by rw [requests]; exact few
      serving := fun index legal => serves index (serving index legal)
      pushed := pushed }
  have waits : next.waits cfg = state.waits cfg := waits_congr same
  obtain ⟨later, final, further, -, -, released⟩ := calm.unwind (waits ▸ path) (same ▸ stops)
    (fun other call reached waiting => by
      rw [waits] at reached
      rw [same] at waiting
      obtain ⟨index, fired⟩ := expired other call reached waiting
      exact ⟨index, List.mem_append_left _ fired⟩)
  exact ⟨_, final, steps.trans further, released⟩

theorem completable_of_run (run : Run (machine cfg) (Unentangled cfg) events state) :
    Completable cfg events state := by
  have untangled := untangled_of_run run
  constructor
  case otherQueue =>
    intro index call waiting own
    apply untangled.acyclic (.worker index)
    apply Relation.TransGen.single
    rw [WaitsFor, Synced.waits, waiting, Option.map_some, own]
  case acyclic => exact untangled.acyclic
  case ends => exact ends_of_run run
  case expired =>
    intro few serving thread expired
    exact released_of_expired run few serving expired
  case elapsed =>
    intro few serving phase performed now thread elapsed
    obtain ⟨emitted, next, fired, same, requests, serves, fires⟩ :=
      pass_fires run.any phase performed now
    have waits : next.waits cfg = state.waits cfg := waits_congr same
    have permitted : Unentangled cfg state (.process (.timers now)) := trivial
    have passed := run.next permitted fired
    obtain ⟨more, after, steps, released⟩ := released_of_expired passed (by rw [requests]; exact few)
      (fun index legal => serves index (serving index legal))
      (fun other call reached waiting => by
        rw [waits] at reached
        rw [same] at waiting
        exact fires call (elapsed other call reached waiting))
    exact ⟨emitted, next, more, after, fired, steps, released⟩

end Condition

/-- A thread waits for the worker of its connection and no one else; if no call
is made to a worker that waits for the caller, every call can be completed; one
that is made nevertheless is never completed. -/
theorem sync_calls_completable (cfg : Config) :
    (∀ events state, Run (machine cfg) (Unentangled cfg) events state →
      Completable cfg events state) ∧
    (∀ events state thread after emitted, Run (machine cfg) anyStep events state →
      (machine cfg).step state (.request thread) = some (after, emitted) →
      ¬ Unentangled cfg state (.request thread) →
      ∀ more final, Steps (machine cfg) anyStep after more final →
        Circular (final.waits cfg) thread ∧ final.waiting thread = after.waiting thread) ∧
    ∀ events state action after emitted thread call, Run (machine cfg) anyStep events state →
      (machine cfg).step state action = some (after, emitted) → state.waiting thread = some call →
      after.waiting thread = some call ∨
        action = .process (.worker (cfg.getWorkerIndex call.info)) := by
  refine ⟨?_, ?_, ?_⟩
  · intro events state run
    exact completable_of_run run
  · intro events state thread after emitted run fired entangled more final steps
    exact circle_stays (run.next trivial fired) (entangled_step fired entangled) steps
  · intro events state action after emitted thread call run fired waiting
    exact released_by_home run fired waiting

/-- Sync calls of the application's threads only. -/
def FromApp (_ : Synced) : Action → Prop
  | .process _ => True
  | .request (.app _) => True
  | .request (.worker _) => False

instance (state : Synced) (action : Action) : Decidable (FromApp state action) :=
  match action with
  | .process _ => .isTrue trivial
  | .request (.app _) => .isTrue trivial
  | .request (.worker _) => .isFalse id

theorem unentangled_of_fromApp (cfg : Config) (state : Synced) (action : Action)
    (app : FromApp state action) : Unentangled cfg state action := by
  cases action with
  | process => exact trivial
  | request thread =>
    cases thread with
    | worker => exact app.elim
    | app index =>
      intro info ctrl data _ reached
      rcases Relation.ReflTransGen.cases_tail reached with same | ⟨last, -, edge⟩
      · cases same
      · obtain ⟨call, -, same⟩ := waits_some edge
        cases same

def connected : List Action :=
  ([.thread (.app 0) (.connect [1])] ++ commandTurn 1 ++ [.thread (.app 0) .receive] :
    List ProcessModel.Action).map .process

/-- A thread makes a sync call with a deadline; the peer does not answer, and
the timer fires. -/
def syncCall (thread : Thread) : List Action :=
  [.process (.thread thread (.request (.dealer 1) [] [] [] (some 0) 5)), .request thread] ++
  ([.loopTop, .timers 0, .poll (.ready [true, false]), .dispatch (.frontend thread ⟨true, 0, 0⟩),
    .flush, .flush, .dispatch .nothing, .dispatch .nothing, .loopTop, .timers 5, .flush] :
    List ProcessModel.Action).map .process

def callInClosure : List Action :=
  connected ++
  ([.thread (.app 0) (.add 0)] ++ commandTurn 2 ++ [.worker 0] :
    List ProcessModel.Action).map .process ++ syncCall (.worker 0)

def closureCall : SyncCall := ⟨.dealer 1, ⟨0, 1, some 0, 5⟩⟩

/-- A worker can wait for its own queue, and past the deadline it waits for ever. -/
theorem own_queue_blocks :
    (¬ ∀ cfg events state, Run (machine cfg) anyStep events state → ∀ index call,
      state.waiting (.worker index) = some call → cfg.getWorkerIndex call.info ≠ index) ∧
    ¬ ∀ cfg events state, Run (machine cfg) anyStep events state → ∀ thread call,
      state.waiting thread = some call → (∃ index, .timerFired call.ctrl.eventId index ∈ events) →
      ∃ more after, Steps (machine cfg) anyStep state more after ∧ after.waiting thread = none := by
  have run := run_reached (machine plain) callInClosure
  have waiting : (reached (machine plain) callInClosure).1.waiting (.worker 0) =
      some closureCall := by decide +kernel
  have fired : .timerFired closureCall.ctrl.eventId 0 ∈
      (reached (machine plain) callInClosure).2 := by decide +kernel
  have edge : (reached (machine plain) callInClosure).1.waits plain (.worker 0) =
      some (.worker 0) := by decide +kernel
  constructor
  · intro claim
    exact claim plain _ _ run 0 closureCall waiting (by decide)
  · intro claim
    obtain ⟨more, after, steps, released⟩ := claim plain _ _ run _ closureCall waiting ⟨0, fired⟩
    have stays := (circle_stays run (.single edge) steps).2
    rw [released, waiting] at stays
    cases stays

theorem only_call {cfg : Config} {state : Synced} {thread home : Thread} {call : SyncCall}
    (waiting : state.waiting thread = some call) (edge : state.waits cfg thread = some home)
    (free : state.waits cfg home = none) {other : Thread} {held : SyncCall}
    (reached : Reaches (state.waits cfg) thread other) (waits : state.waiting other = some held) :
    held = call := by
  rcases Relation.ReflTransGen.cases_head reached with rfl | ⟨next, onward, path⟩
  · rw [waiting] at waits
    cases waits
    rfl
  · rw [WaitsFor, edge, Option.some.injEq] at onward
    subst onward
    rcases Relation.ReflTransGen.cases_head path with rfl | ⟨further, blocked, -⟩
    · rw [waits_none.mp free] at waits
      cases waits
    · rw [WaitsFor, free] at blocked
      cases blocked

theorem serving_only {process : Process} (running : (process.workers 0).running)
    (idle : process.calls (.worker 0) = .idle) (unquit : .quitWorker ∉ (process.workers 0).queue) :
    ∀ index < plain.workers, Serving process index := by
  intro index legal
  have only : index = 0 := Nat.lt_one_iff.mp legal
  subst only
  exact ⟨running, idle, unquit⟩

/-- The same call by a thread of the application is released, before the pass at its deadline
and after it; in the closure it is not. -/
theorem sync_calls_completable_plain :
    let outside := reached ((machine plain).guarded FromApp) (connected ++ syncCall (.app 0))
    let early := reached ((machine plain).guarded FromApp)
      (connected ++ (syncCall (.app 0)).take 11)
    let before := reached (machine plain) (callInClosure.take 18)
    outside.1.waiting (.app 0) = some closureCall ∧
      (∃ more after, Steps (machine plain) Internal outside.1 more after ∧
        after.waiting (.app 0) = none) ∧
      (∃ emitted next more after,
        (machine plain).step early.1 (.process (.timers 5)) = some (next, emitted) ∧
        Steps (machine plain) Internal next more after ∧ after.waiting (.app 0) = none) ∧
      ∃ emitted after, (machine plain).step before.1 (.request (.worker 0)) = some (after, emitted) ∧
        Circular (after.waits plain) (.worker 0) := by
  intro outside early before
  have parts := sync_calls_completable plain
  have confined : ∀ actions, Run (machine plain) (Unentangled plain)
      (reached ((machine plain).guarded FromApp) actions).2
      (reached ((machine plain).guarded FromApp) actions).1 := fun actions =>
    (Steps.of_guarded (run_reached ((machine plain).guarded FromApp) actions)).mono
      (unentangled_of_fromApp plain)
  have waiting : outside.1.waiting (.app 0) = some closureCall := by decide +kernel
  have fired : .timerFired closureCall.ctrl.eventId 0 ∈ outside.2 := by decide +kernel
  refine ⟨waiting, ?_, ?_, ?_⟩
  · apply (parts.1 _ _ (confined _)).expired (by decide +kernel) _ (.app 0) _
    · exact serving_only (by decide +kernel) (by decide +kernel) (by decide +kernel)
    · intro other call behind held
      have home : outside.1.waits plain (.app 0) = some (.worker 0) := by decide +kernel
      have same := only_call waiting home (by decide +kernel) behind held
      subst same
      exact ⟨0, fired⟩
  · apply (parts.1 _ _ (confined _)).elapsed (by decide +kernel) _ (by decide +kernel)
      (by decide +kernel) 5 (.app 0) _
    · exact serving_only (by decide +kernel) (by decide +kernel) (by decide +kernel)
    · intro other call behind held
      have pending : early.1.waiting (.app 0) = some closureCall := by decide +kernel
      have home : early.1.waits plain (.app 0) = some (.worker 0) := by decide +kernel
      have same := only_call pending home (by decide +kernel) behind held
      subst same
      exact ⟨0, .inr ⟨5, by decide, by decide +kernel⟩⟩
  · have run := run_reached (machine plain) (callInClosure.take 18)
    have entangled : ¬ Unentangled plain before.1 (.request (.worker 0)) := by
      intro free
      exact free (.dealer 1) ⟨0, 1, some 0, 5⟩ _ rfl .refl
    have step : (machine plain).step before.1 (.request (.worker 0)) = some (_, _) :=
      step_of_enabled (by decide +kernel) rfl
    exact ⟨_, _, step, (parts.2.1 _ _ _ _ _ run step entangled [] _ .refl).1⟩

end Rpcz.SyncCalls
