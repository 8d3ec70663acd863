import Rpcz.BarredSingleton

/-!
The threads that hold manager pointers: those of the application, and the workers,
which get a pointer of their own for every request. The last release runs
`~manager`, which joins the workers. The broker handles no manager pointer.
-/

namespace Rpcz.ManagerThreads
open Automaton BarredSingleton SingletonLife
open ManagerSingleton hiding Action machine

inductive Thread where
  | app (index : Nat)
  | worker (manager : ManagerId) (index : Nat)
deriving DecidableEq

inductive Op where
  /-- Calls `manager::get`. -/
  | get
  /-- Code of the application, which may get, copy and release pointers. -/
  | run
  /-- Releases a pointer. -/
  | drop
deriving DecidableEq

/-- The commands of a worker. `newHandler` says that `get_handler` creates the
handler of a router connection. -/
inductive Command where
  /-- `kHandleData` with a request. -/
  | request (newHandler : Bool)
  | registerSvc (newHandler : Bool)
  /-- Closures, responses, errors and timeouts, and `kStartRpc`, which runs nothing. -/
  | other
deriving DecidableEq

/-- `create_services` holds a pointer while it runs, and the connection of a
request holds one until its replier is gone. A registration deletes a service. -/
def Command.ops : Command → List Op
  | .request newHandler => (if newHandler then [.get, .drop] else []) ++ [.get, .run, .drop]
  | .registerSvc newHandler => (if newHandler then [.get, .drop] else []) ++ [.run]
  | .other => [.run]

structure Worker where
  queue : List Command
  /-- What remains of the command it executes. -/
  duty : List Op
  returned : Bool
deriving DecidableEq

/-- `joining` says that `~manager` has joined the broker and called `quit_worker`,
so that `kQuitWorker` is the last command of every queue. -/
structure Crew where
  singleton : DynSingleton Thread
  workers : ManagerId → Nat → Worker
  joining : ManagerId → Bool

abbrev Event := ManagerSingleton.Event Thread

inductive Action where
  | helper (action : ManagerSingleton.Action Thread)
  /-- The broker pushes a command. -/
  | deliver (manager : ManagerId) (index : Nat) (cmd : Command)
  | pop (manager : ManagerId) (index : Nat)
  | workGet (manager : ManagerId) (index : Nat)
  | endRun (manager : ManagerId) (index : Nat)
  | workDrop (manager : ManagerId) (index : Nat) (pointer : ManagerId)
deriving DecidableEq

def Standing (singleton : DynSingleton Thread) (manager : ManagerId) : Prop :=
  singleton.life manager = .alive ∨ singleton.life manager = .destroying

instance (singleton : DynSingleton Thread) (manager : ManagerId) :
    Decidable (Standing singleton manager) := inferInstanceAs (Decidable (_ ∨ _))

namespace Crew

def new : Crew := ⟨DynSingleton.new, fun _ _ => ⟨[], [], false⟩, fun _ => false⟩

def setWorker (crew : Crew) (manager : ManagerId) (index : Nat) (worker : Worker) : Crew :=
  { crew with
    workers := Function.update crew.workers manager
      (Function.update (crew.workers manager) index worker) }

def help (crew : Crew) (action : ManagerSingleton.Action Thread) : Option (Crew × List Event) :=
  (crew.singleton.step action).map fun result => ({ crew with singleton := result.1 }, result.2)

def inRun (crew : Crew) (manager : ManagerId) (index : Nat) : Bool :=
  (crew.workers manager index).duty.head? = some .run

def step (threads : Nat) (crew : Crew) : Action → Option (Crew × List Event)
  | .helper (.advance thread) =>
    match crew.singleton.places thread with
    | .destroying id =>
      if crew.joining id then
        if (List.range threads).all (fun index => (crew.workers id index).returned) then
          crew.help (.advance thread)
        else none
      else some ({ crew with joining := Function.update crew.joining id true }, [])
    | _ => crew.help (.advance thread)
  | .helper (.get (.worker manager index)) =>
    if crew.inRun manager index then crew.help (.get (.worker manager index)) else none
  | .helper (.release (.worker manager index) pointer) =>
    if crew.inRun manager index then crew.help (.release (.worker manager index) pointer) else none
  | .helper action => crew.help action
  -- Nothing can reach the broker of a manager that `make_manager_ptr` has not returned.
  | .deliver manager index cmd =>
    if crew.singleton.mgrWptr = some manager ∧ Standing crew.singleton manager ∧
        crew.joining manager = false ∧ index < threads then
      some (crew.setWorker manager index { crew.workers manager index with
        queue := (crew.workers manager index).queue ++ [cmd] }, [])
    else none
  | .pop manager index =>
    let worker := crew.workers manager index
    if index < threads ∧ Standing crew.singleton manager ∧ worker.returned = false ∧
        worker.duty = [] ∧ crew.singleton.places (.worker manager index) = .outside then
      match worker.queue with
      | cmd :: rest =>
        some (crew.setWorker manager index { worker with queue := rest, duty := cmd.ops }, [])
      | [] =>
        if crew.joining manager then
          some (crew.setWorker manager index { worker with returned := true }, [])
        else none
    else none
  | .workGet manager index =>
    match (crew.workers manager index).duty with
    | .get :: rest =>
      (crew.setWorker manager index { crew.workers manager index with duty := rest }).help
        (.get (.worker manager index))
    | _ => none
  | .endRun manager index =>
    match (crew.workers manager index).duty with
    | .run :: rest =>
      if crew.singleton.places (.worker manager index) = .outside then
        some (crew.setWorker manager index { crew.workers manager index with duty := rest }, [])
      else none
    | _ => none
  | .workDrop manager index pointer =>
    match (crew.workers manager index).duty with
    | .drop :: rest =>
      (crew.setWorker manager index { crew.workers manager index with duty := rest }).help
        (.release (.worker manager index) pointer)
    | _ => none

end Crew

/-- Any number of application threads, and `threads` workers a manager. -/
def machine (threads : Nat) : Machine Crew Action Event := ⟨Crew.new, Crew.step threads⟩

inductive Turn (threads : Nat) (crew : Crew) : Action → Crew → List Event → Prop where
  | helped (action : ManagerSingleton.Action Thread) (singleton : DynSingleton Thread)
      (events : List Event) (moved : crew.singleton.step action = some (singleton, events))
      (joined : ∀ thread id, action = .advance thread →
        crew.singleton.places thread = .destroying id →
          ∀ index < threads, (crew.workers id index).returned = true)
      (mine : ∀ id index pointer, action = .get (.worker id index) ∨
        action = .release (.worker id index) pointer → crew.inRun id index = true) :
      Turn threads crew (.helper action) { crew with singleton := singleton } events
  | told (thread : Thread) (id : ManagerId)
      (here : crew.singleton.places thread = .destroying id) :
      Turn threads crew (.helper (.advance thread))
        { crew with joining := Function.update crew.joining id true } []
  | deliver (id : ManagerId) (index : Nat) (cmd : Command)
      (published : crew.singleton.mgrWptr = some id) (standing : Standing crew.singleton id) :
      Turn threads crew (.deliver id index cmd) (crew.setWorker id index
        { crew.workers id index with queue := (crew.workers id index).queue ++ [cmd] }) []
  | pop (id : ManagerId) (index : Nat) (cmd : Command) (rest : List Command)
      (bound : index < threads) (standing : Standing crew.singleton id)
      (runs : (crew.workers id index).returned = false)
      (queued : (crew.workers id index).queue = cmd :: rest) :
      Turn threads crew (.pop id index) (crew.setWorker id index
        { crew.workers id index with queue := rest, duty := cmd.ops }) []
  | quit (id : ManagerId) (index : Nat) (idle : (crew.workers id index).duty = [])
      (outside : crew.singleton.places (.worker id index) = .outside) :
      Turn threads crew (.pop id index)
        (crew.setWorker id index { crew.workers id index with returned := true }) []
  | workGet (id : ManagerId) (index : Nat) (rest : List Op) (singleton : DynSingleton Thread)
      (events : List Event) (duty : (crew.workers id index).duty = .get :: rest)
      (moved : crew.singleton.step (.get (.worker id index)) = some (singleton, events)) :
      Turn threads crew (.workGet id index) { crew.setWorker id index
        { crew.workers id index with duty := rest } with singleton := singleton } events
  | endRun (id : ManagerId) (index : Nat) (rest : List Op)
      (duty : (crew.workers id index).duty = .run :: rest) :
      Turn threads crew (.endRun id index)
        (crew.setWorker id index { crew.workers id index with duty := rest }) []
  | workDrop (id : ManagerId) (index : Nat) (pointer : ManagerId) (rest : List Op)
      (singleton : DynSingleton Thread) (events : List Event)
      (duty : (crew.workers id index).duty = .drop :: rest)
      (moved : crew.singleton.step (.release (.worker id index) pointer) =
        some (singleton, events)) :
      Turn threads crew (.workDrop id index pointer) { crew.setWorker id index
        { crew.workers id index with duty := rest } with singleton := singleton } events

section Turns
variable {threads : Nat} {crew after : Crew} {action : Action} {emitted : List Event}

theorem help_turn {helper : ManagerSingleton.Action Thread}
    (joined : ∀ thread id, helper = .advance thread →
      crew.singleton.places thread = .destroying id →
        ∀ index < threads, (crew.workers id index).returned = true)
    (mine : ∀ id index pointer, helper = .get (.worker id index) ∨
      helper = .release (.worker id index) pointer → crew.inRun id index = true)
    (fired : crew.help helper = some (after, emitted)) :
    Turn threads crew (.helper helper) after emitted := by
  obtain ⟨⟨singleton, events⟩, moved, same⟩ := Option.map_eq_some_iff.mp fired
  cases same
  exact .helped helper singleton events moved joined mine

theorem step_turn (fired : (machine threads).step crew action = some (after, emitted)) :
    Turn threads crew action after emitted := by
  have taken : crew.step threads action = some (after, emitted) := fired
  cases action with
  | helper action =>
    cases action with
    | advance thread =>
      simp only [Crew.step] at taken
      split at taken
      · next id here =>
        split at taken
        · split at taken
          · next all =>
            refine help_turn (fun other place same there => ?_) (by simp) taken
            cases same
            rw [here] at there
            cases there
            simpa using all
          · cases taken
        · cases taken
          exact .told thread id here
      · next elsewhere =>
        refine help_turn (fun other place same there => ?_) (by simp) taken
        cases same
        exact absurd there (elsewhere place)
    | get thread =>
      cases thread with
      | app index => exact help_turn nofun (by simp) taken
      | worker id index =>
        simp only [Crew.step] at taken
        split at taken
        · next inside =>
          refine help_turn nofun (fun other place pointer same => ?_) taken
          rcases same with same | same <;> cases same
          exact inside
        · cases taken
    | release thread pointer =>
      cases thread with
      | app index => exact help_turn nofun (by simp) taken
      | worker id index =>
        simp only [Crew.step] at taken
        split at taken
        · next inside =>
          refine help_turn nofun (fun other place pointer same => ?_) taken
          rcases same with same | same <;> cases same
          exact inside
        · cases taken
    | copy owner receiver id => exact help_turn nofun (by simp) taken
  | deliver id index cmd =>
    simp only [Crew.step] at taken
    split at taken
    · next able =>
      cases taken
      exact .deliver id index cmd able.1 able.2.1
    · cases taken
  | pop id index =>
    simp only [Crew.step] at taken
    split at taken
    · next able =>
      obtain ⟨bound, standing, runs, idle, outside⟩ := able
      split at taken
      · next cmd rest queued =>
        cases taken
        exact .pop id index cmd rest bound standing runs queued
      · split at taken
        · cases taken
          exact .quit id index idle outside
        · cases taken
    · cases taken
  | workGet id index =>
    simp only [Crew.step] at taken
    split at taken
    · next rest duty =>
      obtain ⟨⟨singleton, events⟩, moved, same⟩ := Option.map_eq_some_iff.mp taken
      cases same
      exact .workGet id index rest singleton events duty moved
    · cases taken
  | endRun id index =>
    simp only [Crew.step] at taken
    split at taken
    · next rest duty =>
      split at taken
      · cases taken
        exact .endRun id index rest duty
      · cases taken
    · cases taken
  | workDrop id index pointer =>
    simp only [Crew.step] at taken
    split at taken
    · next rest duty =>
      obtain ⟨⟨singleton, events⟩, moved, same⟩ := Option.map_eq_some_iff.mp taken
      cases same
      exact .workDrop id index pointer rest singleton events duty moved
    · cases taken

end Turns

section Lives
variable {singleton next : DynSingleton Thread} {phase : Phase Thread} {events : List Event}
  {action : ManagerSingleton.Action Thread} {id : ManagerId}

/-- The life of an object only goes forward. -/
inductive Ages (singleton next : DynSingleton Thread) (action : ManagerSingleton.Action Thread)
    (id : ManagerId) : Prop where
  | same (kept : next.life id = singleton.life id)
  | begun (before : singleton.life id = .unborn) (now : next.life id = .constructing)
  | built (before : singleton.life id = .constructing) (now : next.life id = .alive)
  | dropped (before : singleton.life id = .alive) (now : next.life id = .destroying)
  | gone (before : singleton.life id = .destroying) (now : next.life id = .destroyed)
      (thread : Thread) (advances : action = .advance thread)
      (here : singleton.places thread = .destroying id)

theorem life_setLife (singleton : DynSingleton Thread) (manager id : ManagerId) (life : Life) :
    (singleton.setLife manager life).life id = if id = manager then life else singleton.life id :=
  Function.update_apply ..

theorem ages_step (known : Represents singleton phase)
    (fired : singleton.step action = some (next, events)) (id : ManagerId) :
    Ages singleton next action id := by
  have aged : ∀ manager life (after : DynSingleton Thread),
      after.life = (singleton.setLife manager life).life →
        (id = manager → after.life id = life → Ages singleton after action id) →
          Ages singleton after action id := by
    intro manager life after lives changes
    by_cases here : id = manager
    · exact changes here (by rw [lives, life_setLife, if_pos here])
    · exact .same (by rw [lives, life_setLife, if_neg here])
  cases action with
  | get thread =>
    simp only [DynSingleton.step] at fired
    split at fired <;> cases fired
    exact .same rfl
  | copy owner receiver manager =>
    simp only [DynSingleton.step] at fired
    split at fired <;> cases fired
    exact .same rfl
  | release thread manager =>
    simp only [DynSingleton.step, DynSingleton.release] at fired
    split at fired
    · next able =>
      split at fired <;> cases fired
      · refine aged manager .destroying _ rfl (fun here now => .dropped ?_ now)
        rw [here]
        exact known.held thread manager able.2
      · exact .same rfl
    · cases fired
  | advance thread =>
    simp only [DynSingleton.step] at fired
    cases place : singleton.places thread with
    | allocating =>
      rw [place] at fired
      cases fired
      refine aged singleton.nextManager .constructing _ rfl (fun here now => .begun ?_ now)
      rw [here]
      exact known.fresh _ (Nat.le_refl _)
    | constructing manager =>
      rw [place] at fired
      cases fired
      refine aged manager .alive _ rfl (fun here now => .built ?_ now)
      have building := known.claimed thread (.building thread (some manager)) (by rw [place]; rfl)
      rw [here]
      exact known.living manager .constructing (by rw [building]; rfl)
    | destroying manager =>
      rw [place] at fired
      cases fired
      refine aged manager .destroyed _ rfl (fun here now => .gone ?_ now thread rfl ?_)
      · have tearing := known.claimed thread (.tearing thread (some manager)) (by rw [place]; rfl)
        rw [here]
        exact known.living manager .destroying (by rw [tearing]; rfl)
      · rw [here]
        exact place
    | _ =>
      rw [place] at fired
      simp only [DynSingleton.advance] at fired
      try split at fired
      all_goals cases fired
      all_goals exact .same rfl

theorem Standing.present (standing : Standing singleton id) : Present singleton id := by
  rcases standing with life | life <;> simp [Present, life]

theorem wptr_step (known : Represents singleton phase)
    (fired : singleton.step action = some (next, events)) (standing : Standing singleton id)
    (published : singleton.mgrWptr = some id) : next.mgrWptr = some id := by
  cases action with
  | get thread =>
    simp only [DynSingleton.step] at fired
    split at fired <;> cases fired
    exact published
  | copy owner receiver manager =>
    simp only [DynSingleton.step] at fired
    split at fired <;> cases fired
    exact published
  | release thread manager =>
    simp only [DynSingleton.step, DynSingleton.release] at fired
    split at fired
    · split at fired <;> cases fired <;> exact published
    · cases fired
  | advance thread =>
    simp only [DynSingleton.step] at fired
    cases place : singleton.places thread with
    | publishing manager =>
      rw [place] at fired
      cases fired
      have alive := known.claimed thread (.alive manager) (by rw [place]; rfl)
      have mine := known.present id standing.present
      rw [alive] at mine
      exact congrArg some (congrArg Prod.fst (Option.some.inj mine))
    | _ =>
      rw [place] at fired
      simp only [DynSingleton.advance] at fired
      try split at fired
      all_goals cases fired
      all_goals exact published

/-- A manager that has been handed out stays the current one as long as it stands. -/
def Current (singleton : DynSingleton Thread) (id : ManagerId) : Prop :=
  Standing singleton id ∧ singleton.mgrWptr = some id

theorem current_step (known : Represents singleton phase)
    (fired : singleton.step action = some (next, events)) (current : Current singleton id) :
    Current next id ∨ next.life id = .destroyed ∧ ∃ thread, action = .advance thread ∧
      singleton.places thread = .destroying id := by
  have published := wptr_step known fired current.1 current.2
  have alive := current.1
  cases ages_step known fired id with
  | same kept =>
    rw [Standing, ← kept] at alive
    exact .inl ⟨alive, published⟩
  | begun before now =>
    rw [Standing, before] at alive
    simp at alive
  | built before now => exact .inl ⟨.inl now, published⟩
  | dropped before now => exact .inl ⟨.inr now, published⟩
  | gone before now thread advances here => exact .inr ⟨now, thread, advances, here⟩

theorem destroyed_step (known : Represents singleton phase)
    (fired : singleton.step action = some (next, events)) (gone : singleton.life id = .destroyed) :
    next.life id = .destroyed := by
  cases ages_step known fired id with
  | same kept => exact kept.trans gone
  | begun before | built before | dropped before | gone before =>
    rw [before] at gone
    cases gone

inductive Moves (singleton next : DynSingleton Thread) (action : ManagerSingleton.Action Thread)
    (events : List Event) (thread : Thread) : Prop where
  | same (kept : next.places thread = singleton.places thread)
  | called (calls : action = .get thread) (now : next.places thread = .probing)
  | released (manager : ManagerId) (releases : action = .release thread manager)
      (listed : (thread, manager) ∈ singleton.pointers)
      (last : ∀ other, (other, manager) ∉ singleton.pointers.erase (thread, manager))
      (now : next.places thread = .destroying manager)
  | advanced (advances : action = .advance thread)
      (taken : singleton.advance thread (singleton.places thread) = some (next, events))

theorem moves_step (fired : singleton.step action = some (next, events)) (thread : Thread) :
    Moves singleton next action events thread := by
  have moved : ∀ (other : Thread) (place : Place) (after : DynSingleton Thread),
      after.places = Function.update singleton.places other place →
        (thread = other → after.places thread = place →
          Moves singleton after action events thread) →
            Moves singleton after action events thread := by
    intro other place after places changes
    by_cases here : thread = other
    · exact changes here (by rw [places, here, Function.update_self])
    · exact .same (by rw [places, Function.update_of_ne here])
  cases action with
  | get other =>
    simp only [DynSingleton.step] at fired
    split at fired <;> cases fired
    exact moved other _ _ rfl (fun here now => .called (by rw [here]) now)
  | copy owner receiver manager =>
    simp only [DynSingleton.step] at fired
    split at fired <;> cases fired
    exact .same rfl
  | release other manager =>
    simp only [DynSingleton.step, DynSingleton.release] at fired
    split at fired
    · next able =>
      split at fired
      · next none_left =>
        cases fired
        refine moved other _ _ rfl (fun here now => ?_)
        subst here
        refine .released manager rfl able.2 (fun third listed => ?_) now
        have counted := List.countP_eq_zero.mp none_left (third, manager) listed
        simp at counted
      · cases fired
        exact .same rfl
    · cases fired
  | advance other =>
    by_cases here : thread = other
    · subst here
      exact .advanced rfl fired
    · refine .same ?_
      simp only [DynSingleton.step] at fired
      cases place : singleton.places other <;> rw [place] at fired <;>
        simp only [DynSingleton.advance] at fired <;> (try split at fired) <;> cases fired <;>
        exact Function.update_of_ne here ..

theorem outside_step {thread : Thread} (fired : singleton.step action = some (next, events))
    (outside : singleton.places thread = .outside) (inside : next.places thread ≠ .outside) :
    ∃ pointer, action = .get thread ∨ action = .release thread pointer := by
  cases moves_step fired thread with
  | same kept => exact absurd (kept.trans outside) inside
  | called calls now => exact ⟨0, .inl calls⟩
  | released manager releases listed last now => exact ⟨manager, .inr releases⟩
  | advanced advances taken =>
    rw [outside] at taken
    cases taken

end Lives

def Busy (crew : Crew) (id : ManagerId) (index : Nat) : Prop :=
  crew.singleton.places (.worker id index) ≠ .outside ∨ (crew.workers id index).duty ≠ []

/-- A worker works while its manager stands, and `~manager` waits for it. -/
structure Manned (threads : Nat) (crew : Crew) : Prop where
  sound : ∃ events, Run (ManagerSingleton.machine Thread) anyStep events crew.singleton
  queued : ∀ id index, (crew.workers id index).queue ≠ [] →
    Current crew.singleton id ∨ crew.singleton.life id = .destroyed
  busy : ∀ id index, Busy crew id index → index < threads ∧
    (crew.workers id index).returned = false ∧ Current crew.singleton id

section Keep
variable {threads : Nat} {crew after : Crew} {action : Action} {emitted : List Event}
  {allowed : Crew → Action → Prop} {events : List Event}

theorem setWorker_self (crew : Crew) (id : ManagerId) (index : Nat) (worker : Worker) :
    (crew.setWorker id index worker).workers id index = worker := by
  simp [Crew.setWorker]

theorem setWorker_other (crew : Crew) {id other : ManagerId} {index place : Nat} (worker : Worker)
    (apart : ¬ (other = id ∧ place = index)) :
    (crew.setWorker id index worker).workers other place = crew.workers other place := by
  by_cases here : other = id
  · subst here
    have different : place ≠ index := fun same => apart ⟨rfl, same⟩
    simp [Crew.setWorker, Function.update_of_ne different]
  · simp [Crew.setWorker, Function.update_of_ne here]

theorem Manned.represents (manned : Manned threads crew) :
    ∃ phase, Represents crew.singleton phase := by
  obtain ⟨events, run⟩ := manned.sound
  obtain ⟨phase, kept⟩ := represents_of_run run
  exact ⟨phase, kept.represents⟩

theorem Manned.setWorker (manned : Manned threads crew) {id : ManagerId} {index : Nat}
    {worker : Worker}
    (queued : worker.queue ≠ [] → Current crew.singleton id ∨ crew.singleton.life id = .destroyed)
    (busy : crew.singleton.places (.worker id index) ≠ .outside ∨ worker.duty ≠ [] →
      index < threads ∧ worker.returned = false ∧ Current crew.singleton id) :
    Manned threads (crew.setWorker id index worker) where
  sound := manned.sound
  queued other place holds := by
    by_cases same : other = id ∧ place = index
    · obtain ⟨rfl, rfl⟩ := same
      rw [setWorker_self] at holds
      exact queued holds
    · rw [setWorker_other _ _ same] at holds
      exact manned.queued other place holds
  busy other place active := by
    by_cases same : other = id ∧ place = index
    · obtain ⟨rfl, rfl⟩ := same
      rw [Busy, setWorker_self] at active
      rw [setWorker_self]
      exact busy active
    · rw [Busy, setWorker_other _ _ same] at active
      rw [setWorker_other _ _ same]
      exact manned.busy other place active

theorem Manned.help (manned : Manned threads crew) {action : ManagerSingleton.Action Thread}
    {singleton : DynSingleton Thread} {events : List Event}
    (moved : crew.singleton.step action = some (singleton, events))
    (joined : ∀ thread id, action = .advance thread →
      crew.singleton.places thread = .destroying id →
        ∀ index < threads, (crew.workers id index).returned = true)
    (mine : ∀ id index pointer, action = .get (.worker id index) ∨
      action = .release (.worker id index) pointer → Busy crew id index) :
    Manned threads { crew with singleton := singleton } := by
  obtain ⟨phase, known⟩ := manned.represents
  obtain ⟨earlier, run⟩ := manned.sound
  refine ⟨⟨_, run.next trivial moved⟩, fun id index holds => ?_, fun id index active => ?_⟩
  · rcases manned.queued id index holds with current | gone
    · exact (current_step known moved current).imp_right And.left
    · exact .inr (destroyed_step known moved gone)
  · have before : Busy crew id index := by
      rcases active with inside | duty
      · by_cases outside : crew.singleton.places (.worker id index) = .outside
        · obtain ⟨pointer, calls⟩ := outside_step moved outside inside
          exact mine id index pointer calls
        · exact .inl outside
      · exact .inr duty
    obtain ⟨bound, runs, current⟩ := manned.busy id index before
    refine ⟨bound, runs, (current_step known moved current).resolve_right ?_⟩
    rintro ⟨-, thread, advances, here⟩
    have returned := joined thread id advances here index bound
    rw [runs] at returned
    cases returned

theorem inRun_busy {id : ManagerId} {index : Nat} (inside : crew.inRun id index = true) :
    Busy crew id index := by
  refine .inr fun none_left => ?_
  simp [Crew.inRun, none_left] at inside

theorem Manned.goOn (manned : Manned threads crew) {id : ManagerId} {index : Nat} {op : Op}
    {rest : List Op} (duty : (crew.workers id index).duty = op :: rest) :
    Manned threads (crew.setWorker id index { crew.workers id index with duty := rest }) :=
  manned.setWorker (manned.queued id index)
    (fun _ => manned.busy id index (.inr (by rw [duty]; exact List.cons_ne_nil _ _)))

theorem manned_turn (manned : Manned threads crew)
    (turn : Turn threads crew action after emitted) : Manned threads after := by
  cases turn with
  | helped action singleton events moved joined mine =>
    exact manned.help moved joined
      (fun id index pointer calls => inRun_busy (mine id index pointer calls))
  | told thread id here => exact ⟨manned.sound, manned.queued, manned.busy⟩
  | deliver id index cmd published standing =>
    exact manned.setWorker (fun _ => .inl ⟨standing, published⟩) (manned.busy id index)
  | pop id index cmd rest bound standing runs queued =>
    have holds := manned.queued id index (by rw [queued]; exact List.cons_ne_nil _ _)
    refine manned.setWorker (fun _ => holds) (fun _ => ⟨bound, runs, holds.resolve_right ?_⟩)
    intro gone
    rcases standing with life | life <;> rw [gone] at life <;> cases life
  | quit id index idle outside =>
    refine manned.setWorker (manned.queued id index) (fun active => ?_)
    rcases active with inside | duty
    · exact absurd outside inside
    · exact absurd idle duty
  | workGet id index rest singleton events duty moved =>
    have helped := manned.help moved nofun (fun other place pointer calls => by
      rcases calls with same | same <;> cases same
      exact .inr (by rw [duty]; exact List.cons_ne_nil _ _))
    exact helped.goOn duty
  | endRun id index rest duty => exact manned.goOn duty
  | workDrop id index pointer rest singleton events duty moved =>
    have helped := manned.help moved nofun (fun other place pointer calls => by
      rcases calls with same | same <;> cases same
      exact .inr (by rw [duty]; exact List.cons_ne_nil _ _))
    exact helped.goOn duty

theorem manned_of_run (run : Run (machine threads) allowed events crew) : Manned threads crew := by
  refine Steps.invariant (fun _ crew => Manned threads crew) ⟨⟨[], .refl⟩, ?_, ?_⟩ ?_ run
  · exact fun id index holds => absurd rfl holds
  · rintro id index (inside | duty)
    · exact absurd rfl inside
    · exact absurd rfl duty
  · intro events crew action emitted after _ manned _ fired
    exact manned_turn manned (step_turn fired)

end Keep

end Rpcz.ManagerThreads
