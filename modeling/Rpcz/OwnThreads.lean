import Rpcz.ManagerThreads

/-!
Which thread runs `~manager`. It joins the workers, so a worker that releases the
last pointer waits for itself.
-/

namespace Rpcz.OwnThreads
open Automaton SingletonLife ManagerThreads
open ManagerSingleton hiding Action Event machine

def isApp : Thread → Bool
  | .app _ => true
  | .worker _ _ => false

/-- The application gives up its last pointer only when no worker holds one. -/
def OutlivesWorkers (crew : Crew) : Action → Prop
  | .helper (.release (.app index) manager) =>
    crew.singleton.pointers.erase (.app index, manager) ≠ [] →
      ∃ pointer ∈ crew.singleton.pointers.erase (.app index, manager), isApp pointer.1 = true
  | _ => True

/-- The application holds a pointer as long as there is one. -/
def AppHeld (singleton : DynSingleton Thread) : Prop :=
  singleton.pointers ≠ [] → ∃ pointer ∈ singleton.pointers, isApp pointer.1 = true

/-- No worker is in `~manager` or in what follows it. -/
def NotByWorkers (crew : Crew) : Prop :=
  ∀ id index, inDestruction (crew.singleton.places (.worker id index)) = false

section Helper
variable {singleton next : DynSingleton Thread} {phase : Phase Thread} {events : List Event}
  {action : ManagerSingleton.Action Thread}

theorem AppHeld.more (held : AppHeld singleton) {pointer : Thread × ManagerId}
    (pointers : next.pointers = pointer :: singleton.pointers)
    (some_left : singleton.pointers ≠ []) : AppHeld next := by
  intro _
  obtain ⟨other, listed, app⟩ := held some_left
  exact ⟨other, pointers ▸ List.mem_cons_of_mem _ listed, app⟩

theorem lock_held {manager : ManagerId} (locked : singleton.lock = some manager) :
    singleton.pointers ≠ [] := by
  obtain ⟨owner, listed⟩ := lock_pointed locked
  exact List.ne_nil_of_mem listed

theorem held_release (held : AppHeld singleton) {thread : Thread} {manager : ManagerId}
    (apps : isApp thread = true → singleton.pointers.erase (thread, manager) ≠ [] →
      ∃ pointer ∈ singleton.pointers.erase (thread, manager), isApp pointer.1 = true)
    (pointers : next.pointers = singleton.pointers.erase (thread, manager)) : AppHeld next := by
  intro some_left
  rw [pointers] at some_left ⊢
  cases thread with
  | app index => exact apps rfl some_left
  | worker id index =>
    obtain ⟨pointer, listed, app⟩ := held (fun none_left => some_left (by rw [none_left]; rfl))
    refine ⟨pointer, (List.mem_erase_of_ne ?_).mpr listed, app⟩
    rintro rfl
    cases app

theorem held_step (held : AppHeld singleton)
    (fired : singleton.step action = some (next, events))
    (apps : ∀ index manager, action = .release (.app index) manager →
      singleton.pointers.erase (.app index, manager) ≠ [] →
        ∃ pointer ∈ singleton.pointers.erase (.app index, manager), isApp pointer.1 = true)
    (builds : ∀ thread manager, action = .advance thread →
      singleton.places thread = .constructing manager → isApp thread = true) : AppHeld next := by
  cases action with
  | get thread =>
    simp only [DynSingleton.step] at fired
    split at fired <;> cases fired
    exact held
  | copy owner receiver manager =>
    simp only [DynSingleton.step] at fired
    split at fired <;> cases fired
    next listed => exact held.more rfl (List.ne_nil_of_mem listed)
  | release thread manager =>
    have mine : isApp thread = true → singleton.pointers.erase (thread, manager) ≠ [] →
        ∃ pointer ∈ singleton.pointers.erase (thread, manager), isApp pointer.1 = true := by
      intro app
      cases thread with
      | app index => exact apps index manager rfl
      | worker id index => cases app
    simp only [DynSingleton.step, DynSingleton.release] at fired
    split at fired
    · split at fired <;> cases fired <;> exact held_release held mine rfl
    · cases fired
  | advance thread =>
    simp only [DynSingleton.step] at fired
    cases place : singleton.places thread with
    | probing | relocking =>
      rw [place] at fired
      simp only [DynSingleton.advance] at fired
      split at fired <;> cases fired
      · next locked => exact held.more rfl (lock_held locked)
      · exact held
    | constructing manager =>
      have app := builds thread manager rfl place
      rw [place] at fired
      cases fired
      exact fun _ => ⟨(thread, manager), List.mem_cons_self, app⟩
    | _ =>
      rw [place] at fired
      simp only [DynSingleton.advance] at fired
      try split at fired
      all_goals cases fired
      all_goals exact held

theorem worker_step (known : Represents singleton phase) (held : AppHeld singleton) {id : ManagerId}
    {index : Nat} (outside : inDestruction (singleton.places (.worker id index)) = false)
    (fired : singleton.step action = some (next, events)) :
    inDestruction (next.places (.worker id index)) = false := by
  cases moves_step fired (.worker id index) with
  | same kept => rw [kept]; exact outside
  | called calls now => rw [now]; rfl
  | released manager releases listed last now =>
    obtain ⟨pointer, there, app⟩ := held (List.ne_nil_of_mem listed)
    have alive := known.pointed _ _ listed
    rw [known.pointed pointer.1 pointer.2 there] at alive
    cases alive
    refine absurd ((List.mem_erase_of_ne fun same => ?_).mpr there) (last pointer.1)
    rw [same] at app
    cases app
  | advanced advances taken =>
    cases place : singleton.places (.worker id index) with
    | destroying | finishing | clearing =>
      rw [place] at outside
      cases outside
    | _ =>
      rw [place] at taken
      simp only [DynSingleton.advance] at taken
      try split at taken
      all_goals cases taken
      all_goals simp [DynSingleton.goTo, inDestruction]

end Helper

section Runs
variable {threads : Nat} {crew after : Crew} {action : Action} {emitted events : List Event}
  {id : ManagerId} {index : Nat}

theorem builder_app (manned : Manned threads crew) {thread : Thread} {manager : ManagerId}
    (here : crew.singleton.places thread = .constructing manager) : isApp thread = true := by
  cases thread with
  | app index => rfl
  | worker id index =>
    obtain ⟨phase, known⟩ := manned.represents
    have current := (manned.busy id index (.inl (by simp [here]))).2.2
    have building := known.claimed (.worker id index) (.building _ (some manager))
      (by rw [here]; rfl)
    have mine := known.present id current.1.present
    rw [building] at mine
    simp only [Phase.present, Option.some.injEq, Prod.mk.injEq] at mine
    rcases current.1 with life | life <;> rw [life] at mine <;> cases mine.2

theorem held_turn (manned : Manned threads crew) (held : AppHeld crew.singleton)
    (outlives : OutlivesWorkers crew action) (turn : Turn threads crew action after emitted) :
    AppHeld after.singleton := by
  cases turn with
  | helped action singleton events moved joined mine =>
    refine held_step held moved ?_ (fun thread manager _ here => builder_app manned here)
    rintro index manager rfl
    exact outlives
  | workGet other place rest singleton events duty moved =>
    exact held_step held moved nofun nofun
  | workDrop other place pointer rest singleton events duty moved =>
    exact held_step held moved nofun nofun
  | told | deliver | pop | quit | endRun => exact held

theorem worker_turn (manned : Manned threads crew) (held : AppHeld crew.singleton)
    (others : NotByWorkers crew) (turn : Turn threads crew action after emitted) :
    NotByWorkers after := by
  obtain ⟨phase, known⟩ := manned.represents
  intro id index
  cases turn with
  | helped action singleton events moved joined mine =>
    exact worker_step known held (others id index) moved
  | workGet other place rest singleton events duty moved =>
    exact worker_step known held (others id index) moved
  | workDrop other place pointer rest singleton events duty moved =>
    exact worker_step known held (others id index) moved
  | told | deliver | pop | quit | endRun => exact others id index

theorem notByWorkers_of_run (run : Run (machine threads) OutlivesWorkers events crew) :
    AppHeld crew.singleton ∧ NotByWorkers crew := by
  refine Steps.invariant (fun _ (crew : Crew) => AppHeld crew.singleton ∧ NotByWorkers crew)
    ⟨fun some_left => absurd rfl some_left, fun _ _ => rfl⟩ ?_ run
  intro events crew action emitted after earlier before outlives fired
  have manned := manned_of_run earlier
  have turn := step_turn fired
  exact ⟨held_turn manned before.1 outlives turn, worker_turn manned before.1 before.2 turn⟩

theorem selfJoin_turn (manned : Manned threads crew)
    (here : crew.singleton.places (.worker id index) = .destroying id)
    (turn : Turn threads crew action after emitted) :
    after.singleton.places (.worker id index) = .destroying id := by
  have stays : ∀ {helper : ManagerSingleton.Action Thread} {next : DynSingleton Thread}
      {emitted : List Event}, crew.singleton.step helper = some (next, emitted) →
        helper ≠ .advance (.worker id index) →
          next.places (.worker id index) = .destroying id := by
    intro helper next emitted moved apart
    cases moves_step moved (.worker id index) with
    | same kept => rw [kept]; exact here
    | called calls now =>
      subst calls
      simp [DynSingleton.step, here] at moved
    | released manager releases listed last now =>
      subst releases
      simp [DynSingleton.step, here] at moved
    | advanced advances taken => exact absurd advances apart
  cases turn with
  | helped action singleton events moved joined mine =>
    refine stays moved ?_
    rintro rfl
    obtain ⟨bound, runs, -⟩ := manned.busy id index (.inl (by simp [here]))
    have returned := joined (.worker id index) id rfl here index bound
    rw [runs] at returned
    cases returned
  | workGet other place rest singleton events duty moved => exact stays moved (by simp)
  | workDrop other place pointer rest singleton events duty moved => exact stays moved (by simp)
  | told | deliver | pop | quit | endRun => exact here

theorem destroys_own (manned : Manned threads crew) {manager : ManagerId}
    (here : crew.singleton.places (.worker id index) = .destroying manager) : manager = id := by
  obtain ⟨phase, known⟩ := manned.represents
  have current := (manned.busy id index (.inl (by simp [here]))).2.2
  have tearing := known.claimed (.worker id index) (.tearing _ (some manager)) (by rw [here]; rfl)
  have mine := known.present id current.1.present
  rw [tearing] at mine
  exact congrArg Prod.fst (Option.some.inj mine)

theorem selfJoin_of_steps {before more : List Event} {final : Crew}
    (run : Run (machine threads) anyStep before crew)
    (here : crew.singleton.places (.worker id index) = .destroying id)
    (steps : Steps (machine threads) anyStep crew more final) :
    final.singleton.places (.worker id index) = .destroying id := by
  refine Steps.invariant (fun _ (final : Crew) =>
    final.singleton.places (.worker id index) = .destroying id) here ?_ steps
  intro events crew action emitted after earlier still _ fired
  exact selfJoin_turn (manned_of_run (run.trans earlier)) still (step_turn fired)

end Runs

/-- No worker destroys the manager as long as the application outlives the workers'
pointers; a worker that does never comes back. -/
theorem destroyed_by_others {threads : Nat} {events : List Event} {crew : Crew} :
    (Run (machine threads) OutlivesWorkers events crew → NotByWorkers crew) ∧
    (Run (machine threads) anyStep events crew → ∀ id index manager more final,
      crew.singleton.places (.worker id index) = .destroying manager →
      Steps (machine threads) anyStep crew more final →
      final.singleton.places (.worker id index) = .destroying manager) := by
  refine ⟨fun run => (notByWorkers_of_run run).2, ?_⟩
  intro run id index manager more final here steps
  obtain rfl := destroys_own (manned_of_run run) here
  exact selfJoin_of_steps run here steps

def lastOnWorker : List Action :=
  .helper (.get (.app 0)) :: List.replicate 10 (.helper (.advance (.app 0))) ++
    [.deliver 0 0 (.request false), .pop 0 0, .workGet 0 0, .helper (.advance (.worker 0 0)),
      .helper (.advance (.worker 0 0)), .helper (.release (.app 0) 0), .endRun 0 0, .workDrop 0 0 0]

/-- The end of the request runs `~manager` on the worker. -/
theorem worker_destroys : ¬ ∀ events crew, Run (machine 1) anyStep events crew →
    NotByWorkers crew := by
  intro claim
  have outside := claim _ _ (run_reached (machine 1) lastOnWorker) 0 0
  revert outside
  decide +kernel

instance (crew : Crew) (action : Action) : Decidable (OutlivesWorkers crew action) :=
  match action with
  | .helper (.release (.app index) manager) =>
    inferInstanceAs (Decidable (_ ≠ [] →
      ∃ pointer ∈ crew.singleton.pointers.erase (.app index, manager), isApp pointer.1 = true))
  | .helper (.release (.worker _ _) _) | .helper (.advance _) | .helper (.get _) |
    .helper (.copy _ _ _) => isTrue trivial
  | .deliver _ _ _ | .pop _ _ | .workGet _ _ | .endRun _ _ | .workDrop _ _ _ => isTrue trivial

/-- A request that ends before the release, and the run above. -/
theorem destroyed_by_others_request :
    (∃ events crew, Run (machine 1) OutlivesWorkers events crew ∧ .destroyed 0 ∈ events ∧
      NotByWorkers crew) ∧
    ∃ events crew, Run (machine 1) anyStep events crew ∧ ∀ more final,
      Steps (machine 1) anyStep crew more final →
        final.singleton.places (.worker 0 0) = .destroying 0 := by
  constructor
  · have run : Run (machine 1) OutlivesWorkers _ _ :=
      Steps.of_guarded (run_reached ((machine 1).guarded OutlivesWorkers)
        (.helper (.get (.app 0)) :: List.replicate 10 (.helper (.advance (.app 0))) ++
          [.deliver 0 0 (.request false), .pop 0 0, .workGet 0 0,
            .helper (.advance (.worker 0 0)), .helper (.advance (.worker 0 0)), .endRun 0 0,
            .workDrop 0 0 0, .helper (.release (.app 0) 0), .helper (.advance (.app 0)), .pop 0 0,
            .helper (.advance (.app 0))]))
    exact ⟨_, _, run, by decide +kernel, destroyed_by_others.1 run⟩
  · have run := run_reached (machine 1) lastOnWorker
    exact ⟨_, _, run, fun more final steps =>
      destroyed_by_others.2 run 0 0 0 more final (by decide +kernel) steps⟩

end Rpcz.OwnThreads
