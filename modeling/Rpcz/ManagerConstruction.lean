import Rpcz.BarredSingleton
import Rpcz.ContextTeardown

/-!
manager.cc and worker_thread_group.cc: `manager()` inside `make_manager_ptr`, one
throwing step at a time, and the destructors that run when a step throws. The
helper around it takes the steps of its own machine.
-/

namespace Rpcz.ManagerConstruction
open Automaton BarredSingleton
open ManagerSingleton hiding Action Event machine
open ContextTeardown (Member declared)

inductive BuildStep where
  /-- The initialization of a data member. -/
  | member (member : Member)
  /-- `new zmq::socket_t`, held by a plain pointer. -/
  | frontendSocket
  /-- Its options and `bind`. -/
  | bind
  /-- The data members of `worker_thread_group`. -/
  | group
  /-- `workers_[i].reset(new worker(i))`. -/
  | worker (index : Nat)
  /-- `new boost::thread` of the worker. -/
  | thread (index : Nat)
  | broker
deriving DecidableEq

/-- What destructors do, and what `join_threads` does before them. -/
inductive Cleanup where
  /-- The destructor of a data member; that of `context_` waits for its sockets. -/
  | member (member : Member)
  /-- `kQuit`, upon which the broker deletes its sockets and is joined. -/
  | joinBroker
  | quitWorker (index : Nat)
  | joinWorker (index : Nat)
  | deleteWorker (index : Nat)
  /-- `~thread_group`, which leaves the threads to themselves. -/
  | threadGroup
deriving DecidableEq

inductive WorkerThread where
  | absent
  /-- Waits in `cmd_queue.pop`. -/
  | running
  /-- `kQuitWorker` is in its queue. -/
  | told
  | returned
deriving DecidableEq

inductive Stage where
  | building (next : BuildStep)
  | built
  /-- A step threw; the destructors that remain. -/
  | unwinding (rest : List Cleanup)
  /-- In `~manager`. -/
  | destroying (rest : List Cleanup)
deriving DecidableEq

inductive Event (Thread : Type) where
  | helper (event : ManagerSingleton.Event Thread)
  | threw (manager : ManagerId) (step : BuildStep)
  /-- The exception leaves `make_manager_ptr` and `manager::get`. -/
  | caught (thread : Thread)
  | told (manager : ManagerId) (index : Nat)
  | joined (manager : ManagerId) (index : Nat)
  | workerDeleted (manager : ManagerId) (index : Nat)
deriving DecidableEq

inductive Action (Thread : Type) where
  | helper (action : ManagerSingleton.Action Thread)
  /-- The next step of the constructor the thread is in throws. -/
  | throw (thread : Thread)
  /-- The thread of a worker executes `kQuitWorker`. -/
  | workerReturns (manager : ManagerId) (index : Nat)
deriving DecidableEq

/-- The step that follows, of `threads` workers. -/
def BuildStep.next (threads : Nat) : BuildStep → Option BuildStep
  | .member item =>
    match (declared.dropWhile (· ≠ item)).tail with
    | following :: _ => some (.member following)
    | [] => some .frontendSocket
  | .frontendSocket => some .bind
  | .bind => some .group
  | .group => some (if 0 < threads then .worker 0 else .broker)
  | .worker index => some (.thread index)
  | .thread index => some (if index + 1 < threads then .worker (index + 1) else .broker)
  | .broker => none

/-- `delete[]` of the first worker objects, from the last one on. -/
def deleteWorkers (count : Nat) : List Cleanup := (List.range count).reverse.map .deleteWorker

/-- `~worker_thread_group`, its body first. -/
def groupDestructor (threads : Nat) : List Cleanup :=
  (List.range threads).map .joinWorker ++ deleteWorkers threads ++ [.threadGroup]

/-- The destructors of the data members, in the reverse order of their declaration. -/
def memberDestructors (group : List Cleanup) : List Cleanup :=
  declared.reverse.flatMap fun
    | .workerThreadGroup => group
    | member => [.member member]

/-- What is destroyed when the step throws: what is complete, and nothing that
only a plain pointer holds. -/
def unwinding (threads : Nat) : BuildStep → List Cleanup
  | .member member => (declared.takeWhile (· ≠ member)).reverse.map .member
  | .frontendSocket | .bind | .group => memberDestructors []
  | .worker index => deleteWorkers index ++ .threadGroup :: memberDestructors []
  | .thread index => deleteWorkers (index + 1) ++ .threadGroup :: memberDestructors []
  | .broker => memberDestructors (groupDestructor threads)

/-- `~manager`: `join_threads`, then the members. -/
def destroying (threads : Nat) : List Cleanup :=
  .joinBroker :: (List.range threads).map .quitWorker ++ (List.range threads).map .joinWorker ++
    memberDestructors (groupDestructor threads)

structure Manager where
  stage : Stage
  /-- `broker_fe_socket` is open. -/
  frontendOpen : Bool
  workers : Nat → WorkerThread

namespace Manager

def new : Manager := ⟨.building (.member .context), false, fun _ => .absent⟩

def perform (manager : Manager) (threads : Nat) (step : BuildStep) : Manager :=
  { stage := match step.next threads with
      | some following => .building following
      | none => .built
    frontendOpen := manager.frontendOpen || decide (step = .frontendSocket)
    workers := match step with
      | .thread index => Function.update manager.workers index .running
      | _ => manager.workers }

def clean (manager : Manager) : Cleanup → Option Manager
  | .member .context => if manager.frontendOpen then none else some manager
  | .joinBroker => some { manager with frontendOpen := false }
  | .quitWorker index =>
    some { manager with workers := Function.update manager.workers index .told }
  | .joinWorker index => if manager.workers index = .returned then some manager else none
  | _ => some manager

end Manager

def Cleanup.events {Thread : Type} (manager : ManagerId) : Cleanup → List (Event Thread)
  | .quitWorker index => [.told manager index]
  | .joinWorker index => [.joined manager index]
  | .deleteWorker index => [.workerDeleted manager index]
  | _ => []

structure Startup (Thread : Type) where
  singleton : DynSingleton Thread
  managers : ManagerId → Manager

namespace Startup
variable {Thread : Type} [DecidableEq Thread]

def new : Startup Thread := ⟨DynSingleton.new, fun _ => Manager.new⟩

def setManager (startup : Startup Thread) (id : ManagerId) (manager : Manager) : Startup Thread :=
  { startup with managers := Function.update startup.managers id manager }

def help (startup : Startup Thread) (action : ManagerSingleton.Action Thread) :
    Option (Startup Thread × List (Event Thread)) :=
  (startup.singleton.step action).map fun result =>
    ({ startup with singleton := result.1 }, result.2.map .helper)

/-- The exception leaves `make_manager_ptr`, whose lock of `mgr_wptr_mtx` ends. -/
def leave (startup : Startup Thread) (thread : Thread) (id : ManagerId) : Startup Thread :=
  { startup with
    singleton := ({ startup.singleton with mgrWptrMtx := none }.setLife id .destroyed).goTo thread
      .outside }

def construct (threads : Nat) (startup : Startup Thread) (thread : Thread) (id : ManagerId) :
    Option (Startup Thread × List (Event Thread)) :=
  match (startup.managers id).stage with
  | .building step => some (startup.setManager id ((startup.managers id).perform threads step), [])
  | .built => startup.help (.advance thread)
  | .unwinding (item :: rest) =>
    ((startup.managers id).clean item).map fun cleaned =>
      (startup.setManager id { cleaned with stage := .unwinding rest }, item.events id)
  | .unwinding [] => some (startup.leave thread id, [.caught thread])
  | .destroying _ => none

def destruct (threads : Nat) (startup : Startup Thread) (thread : Thread) (id : ManagerId) :
    Option (Startup Thread × List (Event Thread)) :=
  match (startup.managers id).stage with
  | .built =>
    some (startup.setManager id
      { startup.managers id with stage := .destroying (destroying threads) }, [])
  | .destroying (item :: rest) =>
    ((startup.managers id).clean item).map fun cleaned =>
      (startup.setManager id { cleaned with stage := .destroying rest }, item.events id)
  | .destroying [] => startup.help (.advance thread)
  | _ => none

def step (threads : Nat) (startup : Startup Thread) :
    Action Thread → Option (Startup Thread × List (Event Thread))
  | .helper (.advance thread) =>
    match startup.singleton.places thread with
    | .constructing id => startup.construct threads thread id
    | .destroying id => startup.destruct threads thread id
    | _ => startup.help (.advance thread)
  | .helper action => startup.help action
  | .throw thread =>
    match startup.singleton.places thread with
    | .constructing id =>
      match (startup.managers id).stage with
      | .building step =>
        some (startup.setManager id
          { startup.managers id with stage := .unwinding (unwinding threads step) },
          [.threw id step])
      | _ => none
    | _ => none
  | .workerReturns id index =>
    if (startup.managers id).workers index = .told then
      some (startup.setManager id { startup.managers id with
        workers := Function.update (startup.managers id).workers index .returned }, [])
    else none

end Startup

/-- The threads of a process around the singleton, with `threads` workers a manager. -/
def machine (Thread : Type) [DecidableEq Thread] (threads : Nat) :
    Machine (Startup Thread) (Action Thread) (Event Thread) :=
  ⟨Startup.new, Startup.step threads⟩

section Turns
variable {Thread : Type} [DecidableEq Thread] {threads : Nat} {startup after : Startup Thread}
  {action : Action Thread} {emitted : List (Event Thread)}

inductive Turn (threads : Nat) (startup : Startup Thread) :
    Action Thread → Startup Thread → List (Event Thread) → Prop where
  | helped (action : ManagerSingleton.Action Thread) (singleton : DynSingleton Thread)
      (events : List (ManagerSingleton.Event Thread))
      (moved : startup.singleton.step action = some (singleton, events))
      (free : ∀ thread id, action = .advance thread →
        startup.singleton.places thread = .constructing id → (startup.managers id).stage = .built) :
      Turn threads startup (.helper action) { startup with singleton := singleton }
        (events.map .helper)
  | performed (thread : Thread) (id : ManagerId) (step : BuildStep)
      (here : startup.singleton.places thread = .constructing id)
      (stage : (startup.managers id).stage = .building step) :
      Turn threads startup (.helper (.advance thread))
        (startup.setManager id ((startup.managers id).perform threads step)) []
  | unwound (thread : Thread) (id : ManagerId) (item : Cleanup) (rest : List Cleanup)
      (cleaned : Manager) (here : startup.singleton.places thread = .constructing id)
      (stage : (startup.managers id).stage = .unwinding (item :: rest))
      (able : (startup.managers id).clean item = some cleaned) :
      Turn threads startup (.helper (.advance thread))
        (startup.setManager id { cleaned with stage := .unwinding rest }) (item.events id)
  | left (thread : Thread) (id : ManagerId)
      (here : startup.singleton.places thread = .constructing id)
      (stage : (startup.managers id).stage = .unwinding []) :
      Turn threads startup (.helper (.advance thread)) (startup.leave thread id) [.caught thread]
  | begun (thread : Thread) (id : ManagerId)
      (here : startup.singleton.places thread = .destroying id)
      (stage : (startup.managers id).stage = .built) :
      Turn threads startup (.helper (.advance thread)) (startup.setManager id
        { startup.managers id with stage := .destroying (destroying threads) }) []
  | dismantled (thread : Thread) (id : ManagerId) (item : Cleanup) (rest : List Cleanup)
      (cleaned : Manager) (here : startup.singleton.places thread = .destroying id)
      (stage : (startup.managers id).stage = .destroying (item :: rest))
      (able : (startup.managers id).clean item = some cleaned) :
      Turn threads startup (.helper (.advance thread))
        (startup.setManager id { cleaned with stage := .destroying rest }) (item.events id)
  | threw (thread : Thread) (id : ManagerId) (step : BuildStep)
      (here : startup.singleton.places thread = .constructing id)
      (stage : (startup.managers id).stage = .building step) :
      Turn threads startup (.throw thread) (startup.setManager id
        { startup.managers id with stage := .unwinding (unwinding threads step) })
        [.threw id step]
  | returned (id : ManagerId) (index : Nat)
      (told : (startup.managers id).workers index = .told) :
      Turn threads startup (.workerReturns id index) (startup.setManager id
        { startup.managers id with
          workers := Function.update (startup.managers id).workers index .returned }) []

theorem help_turn {helper : ManagerSingleton.Action Thread}
    (free : ∀ thread id, helper = .advance thread →
      startup.singleton.places thread = .constructing id → (startup.managers id).stage = .built)
    (fired : startup.help helper = some (after, emitted)) :
    Turn threads startup (.helper helper) after emitted := by
  obtain ⟨⟨singleton, events⟩, moved, same⟩ := Option.map_eq_some_iff.mp fired
  cases same
  exact .helped helper singleton events moved free

theorem step_turn (fired : (machine Thread threads).step startup action = some (after, emitted)) :
    Turn threads startup action after emitted := by
  have taken : startup.step threads action = some (after, emitted) := fired
  cases action with
  | helper action =>
    cases action with
    | get thread => exact help_turn nofun taken
    | copy owner receiver id => exact help_turn nofun taken
    | release thread id => exact help_turn nofun taken
    | advance thread =>
      simp only [Startup.step] at taken
      split at taken
      · next id here =>
        unfold Startup.construct at taken
        split at taken
        · next step stage =>
          cases taken
          exact .performed thread id step here stage
        · next stage =>
          refine help_turn (fun other place same there => ?_) taken
          cases same
          rw [here] at there
          cases there
          exact stage
        · next item rest stage =>
          obtain ⟨cleaned, able, same⟩ := Option.map_eq_some_iff.mp taken
          cases same
          exact .unwound thread id item rest cleaned here stage able
        · next stage =>
          cases taken
          exact .left thread id here stage
        · cases taken
      · next id here =>
        have apart : ∀ other place, ManagerSingleton.Action.advance thread = .advance other →
            startup.singleton.places other = .constructing place →
            (startup.managers place).stage = .built := by
          intro other place same there
          cases same
          rw [here] at there
          cases there
        unfold Startup.destruct at taken
        split at taken
        · next stage =>
          cases taken
          exact .begun thread id here stage
        · next item rest stage =>
          obtain ⟨cleaned, able, same⟩ := Option.map_eq_some_iff.mp taken
          cases same
          exact .dismantled thread id item rest cleaned here stage able
        · exact help_turn apart taken
        · cases taken
      · next elsewhere _ =>
        refine help_turn (fun other place same there => ?_) taken
        cases same
        exact absurd there (elsewhere place)
  | throw thread =>
    simp only [Startup.step] at taken
    split at taken
    · next id here =>
      split at taken
      · next step stage =>
        cases taken
        exact .threw thread id step here stage
      · cases taken
    · cases taken
  | workerReturns id index =>
    simp only [Startup.step] at taken
    split at taken
    · next told =>
      cases taken
      exact .returned id index told
    · cases taken

omit [DecidableEq Thread] in
theorem setManager_self (startup : Startup Thread) (id : ManagerId) (manager : Manager) :
    (startup.setManager id manager).managers id = manager := Function.update_self ..

omit [DecidableEq Thread] in
theorem setManager_other (startup : Startup Thread) {id other : ManagerId} (manager : Manager)
    (apart : other ≠ id) : (startup.setManager id manager).managers other = startup.managers other :=
  Function.update_of_ne apart ..

def opened : BuildStep → Bool
  | .member _ | .frontendSocket => false
  | _ => true

def startedBy : BuildStep → Nat
  | .worker index | .thread index => index
  | _ => 0

structure HalfBuilt (manager : Manager) (step : BuildStep) : Prop where
  frontend : manager.frontendOpen = opened step
  workers : step ≠ .broker → ∀ index,
    manager.workers index = if index < startedBy step then .running else .absent

theorem HalfBuilt.perform {manager : Manager} {step following : BuildStep}
    (half : HalfBuilt manager step) (next : step.next threads = some following) :
    HalfBuilt (manager.perform threads step) following := by
  have same : ∀ index, (∀ started, step ≠ .thread started) →
      (manager.perform threads step).workers index = manager.workers index := by
    intro index apart
    cases step <;> first | rfl | exact absurd rfl (apart _)
  cases step with
  | member item =>
    have before : opened following = false ∧ startedBy following = 0 := by
      simp only [BuildStep.next] at next
      split at next <;> cases next <;> exact ⟨rfl, rfl⟩
    refine ⟨?_, fun _ index => ?_⟩
    · rw [before.1]
      simp [Manager.perform, half.frontend, opened]
    rw [same index nofun, half.workers nofun, before.2]
    rfl
  | frontendSocket | bind =>
    cases next
    refine ⟨by simp [Manager.perform, half.frontend, opened], fun _ index => ?_⟩
    rw [same index nofun, half.workers nofun]
    rfl
  | group =>
    simp only [BuildStep.next, Option.some.injEq] at next
    split at next
    · subst next
      refine ⟨by simp [Manager.perform, half.frontend, opened], fun _ index => ?_⟩
      rw [same index nofun, half.workers nofun]
      rfl
    · subst next
      exact ⟨by simp [Manager.perform, half.frontend, opened], fun absent => absurd rfl absent⟩
  | worker started =>
    cases next
    refine ⟨by simp [Manager.perform, half.frontend, opened], fun _ index => ?_⟩
    rw [same index nofun, half.workers nofun]
    rfl
  | thread started =>
    simp only [BuildStep.next, Option.some.injEq] at next
    split at next
    · subst next
      refine ⟨by simp [Manager.perform, half.frontend, opened], fun _ index => ?_⟩
      have new : (manager.perform threads (.thread started)).workers index =
          if index = started then .running else manager.workers index := Function.update_apply ..
      rw [new, half.workers nofun]
      change (if index = started then _ else if index < started then _ else _) =
        if index < started + 1 then _ else _
      split_ifs <;> first | rfl | omega
    · subst next
      exact ⟨by simp [Manager.perform, half.frontend, opened], fun absent => absurd rfl absent⟩
  | broker => cases next

/-- Before any step has thrown. The helper runs as if nothing could throw. -/
structure Healthy (startup : Startup Thread) : Prop where
  sound : ∃ events, Run (ManagerSingleton.machine Thread) anyStep events startup.singleton
  half : ∀ id step, (startup.managers id).stage = .building step →
    HalfBuilt (startup.managers id) step
  whole : ∀ id rest, (startup.managers id).stage ≠ .unwinding rest

theorem Healthy.setManager (healthy : Healthy startup) (id : ManagerId) {manager : Manager}
    (half : ∀ step, manager.stage = .building step → HalfBuilt manager step)
    (whole : ∀ rest, manager.stage ≠ .unwinding rest) : Healthy (startup.setManager id manager) where
  sound := healthy.sound
  half other step stage := by
    by_cases same : other = id
    · subst same
      rw [setManager_self] at stage ⊢
      exact half step stage
    · rw [setManager_other _ _ same] at stage ⊢
      exact healthy.half other step stage
  whole other rest stage := by
    by_cases same : other = id
    · subst same
      rw [setManager_self] at stage
      exact whole rest stage
    · rw [setManager_other _ _ same] at stage
      exact healthy.whole other rest stage

theorem healthy_turn (healthy : Healthy startup) (calm : ∀ thread, action ≠ .throw thread)
    (turn : Turn threads startup action after emitted) : Healthy after := by
  cases turn with
  | helped action singleton events moved free =>
    obtain ⟨earlier, run⟩ := healthy.sound
    exact ⟨⟨_, run.next trivial moved⟩, healthy.half, healthy.whole⟩
  | performed thread id step here stage =>
    refine healthy.setManager id (fun following next => ?_) (fun rest next => ?_)
    · simp only [Manager.perform] at next
      split at next
      · next other found =>
        cases next
        exact (healthy.half id step stage).perform found
      · cases next
    · simp only [Manager.perform] at next
      split at next <;> cases next
  | unwound thread id item rest cleaned here stage able =>
    exact absurd stage (healthy.whole id _)
  | left thread id here stage => exact absurd stage (healthy.whole id _)
  | begun thread id here stage => exact healthy.setManager id nofun nofun
  | dismantled thread id item rest cleaned here stage able =>
    exact healthy.setManager id nofun nofun
  | threw thread id step here stage => exact absurd rfl (calm thread)
  | returned id index told =>
    refine healthy.setManager id (fun step stage => ?_) (fun rest stage => ?_)
    · have half := healthy.half id step stage
      refine ⟨half.frontend, fun early => ?_⟩
      have still := half.workers early index
      rw [told] at still
      split at still <;> cases still
    · exact healthy.whole id rest stage

/-- After a throw: `mgr_exists` is set, and nobody is there to clear it. -/
structure Doomed (startup : Startup Thread) (thread : Thread) : Prop where
  exists_eq : startup.singleton.mgrExists = true
  pointers : startup.singleton.pointers = []
  others : ∀ other, other ≠ thread → calm (startup.singleton.places other) = true
  own : calm (startup.singleton.places thread) = true ∨ ∃ id rest,
    startup.singleton.places thread = .constructing id ∧
      (startup.managers id).stage = .unwinding rest

theorem Healthy.throw (healthy : Healthy startup) {thread : Thread} {id : ManagerId}
    (here : startup.singleton.places thread = .constructing id) (rest : List Cleanup)
    (manager : Manager) (stage : manager.stage = .unwinding rest) :
    Doomed (startup.setManager id manager) thread := by
  obtain ⟨events, run⟩ := healthy.sound
  obtain ⟨phase, kept⟩ := SingletonLife.represents_of_run run
  have known := kept.represents
  have building := known.claimed thread (.building thread (some id)) (by rw [here]; rfl)
  subst building
  refine ⟨known.exists_eq, known.no_pointers nofun, ?_, ?_⟩
  · intro other apart
    obtain ⟨free, elsewhere⟩ := known.alone rfl other apart
    exact calm_of_claim free elsewhere
  · refine .inr ⟨id, rest, here, ?_⟩
    rw [setManager_self]
    exact stage

omit [DecidableEq Thread] in
theorem Doomed.setManager {thread : Thread} (doomed : Doomed startup thread) (id : ManagerId)
    {manager : Manager}
    (keep : ∀ rest, (startup.managers id).stage = .unwinding rest →
      ∃ rest, manager.stage = .unwinding rest) : Doomed (startup.setManager id manager) thread where
  exists_eq := doomed.exists_eq
  pointers := doomed.pointers
  others := doomed.others
  own := by
    refine doomed.own.imp_right fun ⟨other, rest, here, stage⟩ => ?_
    by_cases same : other = id
    · subst same
      obtain ⟨remaining, now⟩ := keep rest stage
      exact ⟨other, remaining, here, by rw [setManager_self]; exact now⟩
    · exact ⟨other, rest, here, by rw [setManager_other _ _ same]; exact stage⟩

/-- A thread in `new manager()` or in `delete p` is the one whose constructor threw. -/
theorem Doomed.busy {thread : Thread} (doomed : Doomed startup thread) (other : Thread)
    (here : calm (startup.singleton.places other) = false) : other = thread ∧ ∃ id rest,
      startup.singleton.places thread = .constructing id ∧
        (startup.managers id).stage = .unwinding rest := by
  have same : other = thread := by
    by_contra apart
    rw [doomed.others other apart] at here
    cases here
  subst same
  refine ⟨rfl, doomed.own.resolve_left ?_⟩
  rw [here]
  decide

/-- The other threads get as far as the wait for `mgr_exists`. -/
theorem Doomed.helped {thread : Thread} (doomed : Doomed startup thread)
    {action : ManagerSingleton.Action Thread} {singleton : DynSingleton Thread}
    {events : List (ManagerSingleton.Event Thread)}
    (moved : startup.singleton.step action = some (singleton, events))
    (free : ∀ thread id, action = .advance thread →
      startup.singleton.places thread = .constructing id → (startup.managers id).stage = .built) :
    Barred startup.singleton singleton ∧ events = [] := by
  refine calm_step doomed.exists_eq doomed.pointers (fun other same => ?_) moved
  by_contra busy
  obtain ⟨rfl, id, rest, here, stage⟩ := doomed.busy other (Bool.eq_false_iff.mpr busy)
  rw [free other id same here] at stage
  cases stage

theorem doomed_turn {thread : Thread} (doomed : Doomed startup thread)
    (turn : Turn threads startup action after emitted) :
    Doomed after thread ∧ ∀ event, .helper event ∉ emitted := by
  cases turn with
  | helped action singleton events moved free =>
    obtain ⟨barred, rfl⟩ := doomed.helped moved free
    refine ⟨⟨barred.exists_eq, barred.pointers,
      fun other apart => barred.stays other (doomed.others other apart), ?_⟩, nofun⟩
    rcases doomed.own with held | ⟨id, rest, here, stage⟩
    · exact .inl (barred.stays thread held)
    · refine .inr ⟨id, rest, ?_, stage⟩
      have kept := barred.same thread (by rw [here]; rfl)
      rw [kept]
      exact here
  | performed other id step here stage =>
    obtain ⟨rfl, id', rest, there, unwinds⟩ := doomed.busy other (by rw [here]; rfl)
    rw [here] at there
    cases there
    rw [stage] at unwinds
    cases unwinds
  | unwound other id item rest cleaned here stage able =>
    refine ⟨doomed.setManager id (fun _ _ => ⟨rest, rfl⟩), fun event member => ?_⟩
    cases item <;> simp [Cleanup.events] at member
  | left other id here stage =>
    obtain ⟨rfl, -⟩ := doomed.busy other (by rw [here]; rfl)
    refine ⟨⟨doomed.exists_eq, doomed.pointers, fun third apart => ?_, .inl ?_⟩, by simp⟩
    · have kept : (startup.leave other id).singleton.places third =
          startup.singleton.places third := Function.update_of_ne apart ..
      rw [kept]
      exact doomed.others third apart
    · have gone : (startup.leave other id).singleton.places other = .outside :=
        Function.update_self ..
      rw [gone]
      rfl
  | begun other id here stage =>
    obtain ⟨rfl, id', rest, there, -⟩ := doomed.busy other (by rw [here]; rfl)
    rw [here] at there
    cases there
  | dismantled other id item rest cleaned here stage able =>
    obtain ⟨rfl, id', rest, there, -⟩ := doomed.busy other (by rw [here]; rfl)
    rw [here] at there
    cases there
  | threw other id step here stage =>
    obtain ⟨rfl, id', rest, there, unwinds⟩ := doomed.busy other (by rw [here]; rfl)
    rw [here] at there
    cases there
    rw [stage] at unwinds
    cases unwinds
  | returned id index told => exact ⟨doomed.setManager id (fun rest stage => ⟨rest, stage⟩), nofun⟩

theorem healthy_of_run {events : List (Event Thread)}
    (run : Run (machine Thread threads) anyStep events startup) :
    Healthy startup ∨ ∃ thread, Doomed startup thread := by
  refine Steps.invariant (fun _ startup => Healthy startup ∨ ∃ thread, Doomed startup thread)
    (.inl ?_) ?_ run
  · refine ⟨⟨[], .refl⟩, fun id step stage => ?_, nofun⟩
    cases stage
    exact ⟨rfl, fun _ index => rfl⟩
  · intro events startup action emitted after _ state _ fired
    have turn := step_turn fired
    rcases state with healthy | ⟨thread, doomed⟩
    · by_cases throwing : ∃ thread, action = .throw thread
      · obtain ⟨thread, rfl⟩ := throwing
        cases turn with
        | threw _ id step here stage => exact .inr ⟨thread, healthy.throw here _ _ rfl⟩
      · exact .inl (healthy_turn healthy (fun thread same => throwing ⟨thread, same⟩) turn)
    · exact .inr ⟨thread, (doomed_turn doomed turn).1⟩

structure Thrown (threads : Nat) (startup after : Startup Thread) (thread : Thread)
    (id : ManagerId) (step : BuildStep) : Prop where
  here : startup.singleton.places thread = .constructing id
  half : HalfBuilt (startup.managers id) step
  doomed : Doomed after thread
  after_eq : after = startup.setManager id
    { startup.managers id with stage := .unwinding (unwinding threads step) }

theorem thrown_of_run {events : List (Event Thread)} {thread : Thread} {id : ManagerId}
    {step : BuildStep} (run : Run (machine Thread threads) anyStep events startup)
    (fired : (machine Thread threads).step startup (.throw thread) =
      some (after, [.threw id step])) : Thrown threads startup after thread id step := by
  have turn := step_turn fired
  generalize emission : [Event.threw id step] = emitted at turn
  cases turn with
  | threw _ place found here stage =>
    cases emission
    rcases healthy_of_run run with healthy | ⟨other, doomed⟩
    · exact ⟨here, healthy.half id step stage, healthy.throw here _ _ rfl, rfl⟩
    · obtain ⟨rfl, id', rest, there, unwinds⟩ := doomed.busy thread (by rw [here]; rfl)
      rw [here] at there
      cases there
      rw [stage] at unwinds
      cases unwinds

theorem doomed_of_steps {more : List (Event Thread)} {final : Startup Thread} {thread : Thread}
    (doomed : Doomed startup thread)
    (steps : Steps (machine Thread threads) anyStep startup more final) :
    Doomed final thread ∧ ∀ event, .helper event ∉ more := by
  refine Steps.invariant (fun more final => Doomed final thread ∧ ∀ event, .helper event ∉ more)
    ⟨doomed, nofun⟩ ?_ steps
  intro events startup action emitted after _ before _ fired
  obtain ⟨now, silent⟩ := doomed_turn before.1 (step_turn fired)
  exact ⟨now, fun event member =>
    (List.mem_append.mp member).elim (before.2 event) (silent event)⟩

/-- `~context_t` waits for a socket that nothing closes. -/
structure Stuck (startup : Startup Thread) (thread : Thread) (id : ManagerId) : Prop where
  here : startup.singleton.places thread = .constructing id
  frontend : (startup.managers id).frontendOpen = true
  stage : ∃ rest, (startup.managers id).stage = .unwinding rest ∧
    .member .context ∈ rest ∧ .joinBroker ∉ rest

theorem clean_frontend {manager cleaned : Manager} {item : Cleanup}
    (able : manager.clean item = some cleaned) (apart : item ≠ .joinBroker) :
    cleaned.frontendOpen = manager.frontendOpen := by
  cases item with
  | member item =>
    cases item with
    | context =>
      simp only [Manager.clean] at able
      split at able <;> cases able
      rfl
    | _ => cases able; rfl
  | joinBroker => exact absurd rfl apart
  | joinWorker index =>
    simp only [Manager.clean] at able
    split at able <;> cases able
    rfl
  | quitWorker | deleteWorker | threadGroup => cases able; rfl

theorem stuck_turn {thread : Thread} {id : ManagerId} (doomed : Doomed startup thread)
    (stuck : Stuck startup thread id) (turn : Turn threads startup action after emitted) :
    Stuck after thread id ∧ .caught thread ∉ emitted := by
  obtain ⟨rest, unwinds, context, alone⟩ := stuck.stage
  have mine : ∀ other place, startup.singleton.places other = .constructing place →
      other = thread ∧ place = id := by
    intro other place here
    obtain ⟨rfl, -⟩ := doomed.busy other (by rw [here]; rfl)
    rw [stuck.here] at here
    cases here
    exact ⟨rfl, rfl⟩
  have apart : ∀ other place, startup.singleton.places other ≠ .destroying place := by
    intro other place here
    obtain ⟨rfl, -⟩ := doomed.busy other (by rw [here]; rfl)
    rw [stuck.here] at here
    cases here
  cases turn with
  | helped action singleton events moved free =>
    obtain ⟨barred, rfl⟩ := doomed.helped moved free
    refine ⟨⟨?_, stuck.frontend, stuck.stage⟩, by simp⟩
    have kept := barred.same thread (by rw [stuck.here]; rfl)
    rw [kept]
    exact stuck.here
  | performed other place step here stage =>
    obtain ⟨rfl, rfl⟩ := mine other place here
    rw [stage] at unwinds
    cases unwinds
  | unwound other place item remaining cleaned here stage able =>
    obtain ⟨rfl, rfl⟩ := mine other place here
    rw [stage] at unwinds
    cases unwinds
    rw [List.mem_cons, not_or] at alone
    have kept := clean_frontend able (Ne.symm alone.1)
    have later : .member .context ∈ remaining := by
      refine (List.mem_cons.mp context).resolve_left ?_
      rintro rfl
      simp [Manager.clean, stuck.frontend] at able
    refine ⟨⟨here, ?_, ⟨remaining, ?_, later, alone.2⟩⟩, ?_⟩
    · rw [setManager_self]
      exact kept.trans stuck.frontend
    · rw [setManager_self]
    · cases item <;> simp [Cleanup.events]
  | left other place here stage =>
    obtain ⟨rfl, rfl⟩ := mine other place here
    rw [stage] at unwinds
    cases unwinds
    cases context
  | begun other place here stage => exact absurd here (apart other place)
  | dismantled other place item remaining cleaned here stage able =>
    exact absurd here (apart other place)
  | threw other place step here stage =>
    obtain ⟨rfl, rfl⟩ := mine other place here
    rw [stage] at unwinds
    cases unwinds
  | returned place index told =>
    refine ⟨⟨stuck.here, ?_, ?_⟩, by simp⟩
    · by_cases same : id = place
      · subst same
        rw [setManager_self]
        exact stuck.frontend
      · rw [setManager_other _ _ same]
        exact stuck.frontend
    · by_cases same : id = place
      · subst same
        rw [setManager_self]
        exact stuck.stage
      · rw [setManager_other _ _ same]
        exact stuck.stage

theorem stuck_of_steps {more : List (Event Thread)} {final : Startup Thread} {thread : Thread}
    {id : ManagerId} (doomed : Doomed startup thread) (stuck : Stuck startup thread id)
    (steps : Steps (machine Thread threads) anyStep startup more final) :
    Stuck final thread id ∧ .caught thread ∉ more := by
  refine Steps.invariant (fun more final => Stuck final thread id ∧ .caught thread ∉ more)
    ⟨stuck, nofun⟩ ?_ steps
  intro events state action emitted after earlier before _ fired
  obtain ⟨now, silent⟩ := stuck_turn (doomed_of_steps doomed earlier).1 before.1 (step_turn fired)
  exact ⟨now, fun member => (List.mem_append.mp member).elim before.2 silent⟩

theorem unwound_step (threads : Nat) {thread : Thread} {id : ManagerId} {item : Cleanup} {rest : List Cleanup}
    {cleaned : Manager} (here : startup.singleton.places thread = .constructing id)
    (stage : (startup.managers id).stage = .unwinding (item :: rest))
    (able : (startup.managers id).clean item = some cleaned) :
    (machine Thread threads).step startup (.helper (.advance thread)) =
      some (startup.setManager id { cleaned with stage := .unwinding rest }, item.events id) := by
  simp [machine, Startup.step, here, Startup.construct, stage, able]

theorem left_step {thread : Thread} {id : ManagerId}
    (here : startup.singleton.places thread = .constructing id)
    (stage : (startup.managers id).stage = .unwinding []) :
    (machine Thread threads).step startup (.helper (.advance thread)) =
      some (startup.leave thread id, [.caught thread]) := by
  simp [machine, Startup.step, here, Startup.construct, stage]

theorem unwinds {thread : Thread} {id : ManagerId} {rest : List Cleanup}
    (here : startup.singleton.places thread = .constructing id)
    (stage : (startup.managers id).stage = .unwinding rest)
    (closed : (startup.managers id).frontendOpen = false)
    (members : ∀ item ∈ rest, ∃ member, item = .member member) :
    ∃ more final, Steps (machine Thread threads) anyStep startup more final ∧
      .caught thread ∈ more := by
  induction rest generalizing startup with
  | nil => exact ⟨_, _, .single trivial (left_step here stage), by simp⟩
  | cons item rest ih =>
    obtain ⟨member, rfl⟩ := members item List.mem_cons_self
    have able : (startup.managers id).clean (.member member) = some (startup.managers id) := by
      cases member <;> simp [Manager.clean, closed]
    have first := unwound_step threads here stage able
    have next : (startup.setManager id { startup.managers id with
        stage := .unwinding rest }).singleton.places thread = .constructing id := here
    obtain ⟨more, final, later, caught⟩ := ih next (by rw [setManager_self])
      (by rw [setManager_self]; exact closed)
      (fun other inside => members other (List.mem_cons_of_mem _ inside))
    exact ⟨_, final, (Steps.single trivial first).trans later, List.mem_append_right _ caught⟩

theorem deletes (threads : Nat) {thread : Thread} {id : ManagerId} {indices : List Nat} {rest : List Cleanup}
    (here : startup.singleton.places thread = .constructing id)
    (stage : (startup.managers id).stage =
      .unwinding (indices.map .deleteWorker ++ rest)) :
    ∃ final, Steps (machine Thread threads) anyStep startup
      (indices.map (.workerDeleted id)) final := by
  induction indices generalizing startup with
  | nil => exact ⟨startup, .refl⟩
  | cons index remaining ih =>
    have first := unwound_step threads here stage rfl
    have next : (startup.setManager id { startup.managers id with
        stage := .unwinding (remaining.map .deleteWorker ++ rest) }).singleton.places thread =
        .constructing id := here
    obtain ⟨final, later⟩ := ih next (by rw [setManager_self])
    exact ⟨final, (Steps.single trivial first).trans later⟩

end Turns

/-- A construction that fails leaves no trace. What has to happen in the end has
to be possible at least. -/
structure LeavesNoTrace {Thread : Type} [DecidableEq Thread] (threads : Nat)
    (startup after : Startup Thread) (thread : Thread) (id : ManagerId) : Prop where
  reaches : ∃ more final, Steps (machine Thread threads) anyStep after more final ∧
    .caught thread ∈ more
  joined : ∀ before index rest final,
    Steps (machine Thread threads) anyStep after (before ++ .workerDeleted id index :: rest) final →
      (startup.managers id).workers index ≠ .absent →
        .told id index ∈ before ∧ .joined id index ∈ before
  restored : ∀ more state action final emitted,
    Steps (machine Thread threads) anyStep after more state →
      (machine Thread threads).step state action = some (final, emitted) →
        .caught thread ∈ emitted → final.singleton.mgrExists = false ∧
          final.singleton.mgrWptr = startup.singleton.mgrWptr
  later : ∀ more state, Steps (machine Thread threads) anyStep after more state →
    .caught thread ∈ more → ∃ next final other,
      Steps (machine Thread threads) anyStep state next final ∧ .helper (.constructed other) ∈ next

structure LeavesTrace {Thread : Type} [DecidableEq Thread] (threads : Nat)
    (startup after : Startup Thread) (thread : Thread) (id : ManagerId) (step : BuildStep) :
    Prop where
  /-- `mgr_exists` stays set, no other manager is begun and no `manager::get` returns. -/
  barred : ∀ more final, Steps (machine Thread threads) anyStep after more final →
    final.singleton.mgrExists = true ∧ (∀ other, .helper (.constructing other) ∉ more) ∧
      ∀ other any, .helper (.got other any) ∉ more
  /-- The exception comes out as long as the frontend socket is not open. -/
  hangs : (∃ more final, Steps (machine Thread threads) anyStep after more final ∧
    .caught thread ∈ more) ↔ opened step = false
  /-- Up to the broker, workers are deleted under their threads. -/
  deleted : step ≠ .broker → ∀ index, (startup.managers id).workers index ≠ .absent →
    ∃ before rest final, Steps (machine Thread threads) anyStep after
      (before ++ .workerDeleted id index :: rest) final ∧
        .told id index ∉ before ∧ .joined id index ∉ before

section Result
variable {Thread : Type} [DecidableEq Thread] {threads : Nat} {startup after : Startup Thread}
  {thread : Thread} {id : ManagerId} {step : BuildStep} {events : List (Event Thread)}

theorem Doomed.trace (doomed : Doomed after thread) :
    ¬ LeavesNoTrace threads startup after thread id := by
  intro none_left
  obtain ⟨more, final, steps, caught⟩ := none_left.reaches
  obtain ⟨before, rest, rfl⟩ := List.append_of_mem caught
  obtain ⟨earlier, pre, post, later, state, action, next, reached, -, fired, -, -, -⟩ :=
    steps.occurs
  have cleared := (none_left.restored earlier state action next _ reached fired (by simp)).1
  have still := (doomed_of_steps doomed (reached.next trivial fired)).1.exists_eq
  rw [still] at cleared
  cases cleared

theorem unwinding_member {item : Cleanup} (early : opened step = false)
    (inside : item ∈ unwinding threads step) : ∃ member, item = .member member := by
  cases step with
  | member first =>
    simp only [unwinding, List.mem_map] at inside
    obtain ⟨member, -, rfl⟩ := inside
    exact ⟨member, rfl⟩
  | frontendSocket =>
    simp only [unwinding, memberDestructors, List.mem_flatMap] at inside
    obtain ⟨member, -, inside⟩ := inside
    cases member <;> simp at inside <;> exact ⟨_, inside⟩
  | _ => cases early

theorem unwinding_context (threads : Nat) (late : opened step = true) :
    .member .context ∈ unwinding threads step ∧ .joinBroker ∉ unwinding threads step := by
  cases step with
  | member item | frontendSocket => cases late
  | _ =>
    simp [unwinding, memberDestructors, declared, deleteWorkers, groupDestructor]

omit [DecidableEq Thread] in
theorem Thrown.after_manager (thrown : Thrown threads startup after thread id step) :
    after.managers id =
      { startup.managers id with stage := .unwinding (unwinding threads step) } := by
  rw [thrown.after_eq, setManager_self]

omit [DecidableEq Thread] in
theorem Thrown.after_here (thrown : Thrown threads startup after thread id step) :
    after.singleton.places thread = .constructing id := by
  rw [thrown.after_eq]
  exact thrown.here

theorem Thrown.hangs (thrown : Thrown threads startup after thread id step) :
    (∃ more final, Steps (machine Thread threads) anyStep after more final ∧
      .caught thread ∈ more) ↔ opened step = false := by
  have frontend : (after.managers id).frontendOpen = opened step := by
    rw [thrown.after_manager]
    exact thrown.half.frontend
  constructor
  · rintro ⟨more, final, steps, caught⟩
    by_contra late
    rw [Bool.not_eq_false] at late
    obtain ⟨context, alone⟩ := unwinding_context threads late
    have stuck : Stuck after thread id :=
      ⟨thrown.after_here, frontend.trans late, _, by rw [thrown.after_manager], context, alone⟩
    exact (stuck_of_steps thrown.doomed stuck steps).2 caught
  · intro early
    exact unwinds thrown.after_here (by rw [thrown.after_manager]) (frontend.trans early)
      (fun item inside => unwinding_member early inside)

theorem unwinding_deletes (threads : Nat) (early : step ≠ .broker) {index : Nat} (started : index < startedBy step) :
    ∃ count rest, unwinding threads step = deleteWorkers count ++ rest ∧ index < count := by
  cases step with
  | worker last => exact ⟨last, _, rfl, started⟩
  | thread last => exact ⟨last + 1, _, rfl, Nat.lt_succ_of_lt started⟩
  | broker => exact absurd rfl early
  | _ => exact absurd started (Nat.not_lt_zero _)

theorem Thrown.deleted (thrown : Thrown threads startup after thread id step)
    (early : step ≠ .broker) {index : Nat}
    (present : (startup.managers id).workers index ≠ .absent) :
    ∃ before rest final, Steps (machine Thread threads) anyStep after
      (before ++ .workerDeleted id index :: rest) final ∧
        .told id index ∉ before ∧ .joined id index ∉ before := by
  have started : index < startedBy step := by
    by_contra apart
    rw [thrown.half.workers early, if_neg apart] at present
    exact present rfl
  obtain ⟨count, rest, whole, below⟩ := unwinding_deletes threads early started
  obtain ⟨final, steps⟩ := deletes threads thrown.after_here
    (by rw [thrown.after_manager, whole]; rfl)
  have member : index ∈ (List.range count).reverse := by simpa using below
  obtain ⟨front, back, same⟩ := List.append_of_mem member
  rw [same, List.map_append, List.map_cons] at steps
  exact ⟨_, _, final, steps, by simp, by simp⟩

/-- No construction that fails goes without a trace, at whichever step. -/
theorem construction_trace (run : Run (machine Thread threads) anyStep events startup)
    (fired : (machine Thread threads).step startup (.throw thread) =
      some (after, [.threw id step])) :
    ¬ LeavesNoTrace threads startup after thread id ∧
      LeavesTrace threads startup after thread id step := by
  have thrown := thrown_of_run run fired
  refine ⟨thrown.doomed.trace, ⟨?_, thrown.hangs, fun early index => thrown.deleted early⟩⟩
  intro more final steps
  obtain ⟨doomed, silent⟩ := doomed_of_steps thrown.doomed steps
  exact ⟨doomed.exists_eq, fun other => silent _, fun other any => silent _⟩

end Result

def upToSecondThread : List (Action Nat) :=
  .helper (.get 0) :: List.replicate 21 (.helper (.advance 0))

/-- The system refuses the second worker thread. -/
theorem second_thread_trace : ¬ ∀ (startup after : Startup Nat) events,
    Run (machine Nat 2) anyStep events startup →
      (machine Nat 2).step startup (.throw 0) = some (after, [.threw 0 (.thread 1)]) →
        LeavesNoTrace 2 startup after 0 0 := by
  intro claim
  have run := run_reached (machine Nat 2) upToSecondThread
  have fired : (machine Nat 2).step (reached (machine Nat 2) upToSecondThread).1 (.throw 0) =
      some (_, [.threw 0 (.thread 1)]) := step_of_enabled (by decide +kernel) (by decide +kernel)
  exact (thrown_of_run run fired).doomed.trace (claim _ _ _ run fired)

theorem construction_trace_second :
    ∃ startup after : Startup Nat, ¬ LeavesNoTrace 2 startup after 0 0 ∧
      LeavesTrace 2 startup after 0 0 (.thread 1) :=
  have run := run_reached (machine Nat 2) upToSecondThread
  ⟨_, _, construction_trace run (step_of_enabled (by decide +kernel) (by decide +kernel))⟩

end Rpcz.ManagerConstruction
