import Rpcz.ManagerThreads

/-!
`~manager` joins workers that may be inside `manager::get`. A worker that looks for
the manager after the last release waits in `make_manager_ptr` for the end of the
destruction, which waits for the worker.
-/

namespace Rpcz.TeardownDeadlock
open Automaton BarredSingleton SingletonLife ManagerThreads
open ManagerSingleton hiding Action Event machine

/-- Waits for `mgr_wptr_mtx`, or in `start_construction` for `mgr_exists`. -/
def BlockedInGet (singleton : DynSingleton Thread) (thread : Thread) : Prop :=
  (singleton.places thread = .entering ∧ singleton.mgrWptrMtx ≠ none) ∨
    (singleton.places thread = .waiting ∧ singleton.mgrExists = true)

/-- A thread in `~manager` joins a worker that is blocked in `manager::get`. -/
def Deadlocked (threads : Nat) (crew : Crew) : Prop :=
  ∃ thread id index, crew.singleton.places thread = .destroying id ∧ crew.joining id = true ∧
    index < threads ∧ (crew.workers id index).returned = false ∧
      BlockedInGet crew.singleton (.worker id index)

/-- A worker looks for the manager only while somebody holds a pointer. -/
def FindsManager (crew : Crew) : Action → Prop
  | .helper (.advance (.worker id index)) =>
    crew.singleton.places (.worker id index) = .probing → crew.singleton.pointers ≠ []
  | _ => True

/-- The worker is in `make_manager_ptr`, and the thread in `~manager` cannot go on. -/
structure Trapped (threads : Nat) (crew : Crew) (id : ManagerId) (index : Nat) (thread : Thread) :
    Prop where
  tearing : crew.singleton.places thread = .destroying id
  exists_eq : crew.singleton.mgrExists = true
  pointers : crew.singleton.pointers = []
  others : ∀ other, other ≠ thread → calm (crew.singleton.places other) = true
  inside : inMake (crew.singleton.places (.worker id index)) = true
  bound : index < threads
  runs : (crew.workers id index).returned = false

section Helper
variable {singleton next : DynSingleton Thread} {phase : Phase Thread} {events : List Event}
  {action : ManagerSingleton.Action Thread} {id : ManagerId} {thread : Thread}

theorem lock_current (known : Represents singleton phase) (current : Current singleton id)
    (held : singleton.pointers ≠ []) : singleton.lock = some id := by
  obtain ⟨pointer, listed⟩ := List.exists_mem_of_ne_nil _ held
  have mine := known.present id current.1.present
  rw [known.pointed pointer.1 pointer.2 listed] at mine
  have same : pointer.2 = id := congrArg Prod.fst (Option.some.inj mine)
  have counted : 0 < singleton.useCount id :=
    List.countP_pos_iff.mpr ⟨pointer, listed, by simpa using same⟩
  rw [DynSingleton.lock, current.2]
  simpa [Option.filter] using Nat.ne_of_gt counted

theorem prompt_step (fired : singleton.step action = some (next, events))
    (prompt : inMake (singleton.places thread) = false)
    (finds : action = .advance thread → singleton.places thread = .probing →
      singleton.lock ≠ none) : inMake (next.places thread) = false := by
  cases moves_step fired thread with
  | same kept => rw [kept]; exact prompt
  | called calls now => rw [now]; rfl
  | released manager releases listed last now => rw [now]; rfl
  | advanced advances taken =>
    cases place : singleton.places thread with
    | outside =>
      rw [place] at taken
      cases taken
    | probing =>
      rw [place] at taken
      simp only [DynSingleton.advance] at taken
      split at taken
      · cases taken
        simp [DynSingleton.goTo, inMake]
      · next absent => exact absurd absent (finds advances place)
    | entering | relocking | starting | testing | waiting =>
      rw [place] at prompt
      cases prompt
    | _ =>
      rw [place] at taken
      simp only [DynSingleton.advance] at taken
      try split at taken
      all_goals cases taken
      all_goals simp [DynSingleton.goTo, inMake]

end Helper

section Runs
variable {threads : Nat} {crew after : Crew} {action : Action} {emitted events : List Event}
  {id : ManagerId} {index : Nat} {thread : Thread}

theorem prompt_turn (manned : Manned threads crew) (id : ManagerId) (index : Nat)
    (prompt : inMake (crew.singleton.places (.worker id index)) = false)
    (finds : FindsManager crew action) (turn : Turn threads crew action after emitted) :
    inMake (after.singleton.places (.worker id index)) = false := by
  cases turn with
  | helped action singleton events moved joined mine =>
    refine prompt_step moved prompt (fun advances probing => ?_)
    subst advances
    obtain ⟨phase, known⟩ := manned.represents
    have current := (manned.busy id index (.inl (by rw [probing]; exact nofun))).2.2
    rw [lock_current known current (finds probing)]
    exact nofun
  | workGet other place rest singleton events duty moved => exact prompt_step moved prompt nofun
  | workDrop other place pointer rest singleton events duty moved =>
    exact prompt_step moved prompt nofun
  | told | deliver | pop | quit | endRun => exact prompt

theorem prompt_of_run (run : Run (machine threads) FindsManager events crew) (id : ManagerId)
    (index : Nat) : inMake (crew.singleton.places (.worker id index)) = false := by
  refine Steps.invariant (fun _ (crew : Crew) =>
    inMake (crew.singleton.places (.worker id index)) = false) rfl ?_ run
  intro events crew action emitted after earlier prompt finds fired
  exact prompt_turn (manned_of_run earlier) id index prompt finds (step_turn fired)

theorem trapped_of_run (run : Run (machine threads) anyStep events crew)
    (probing : crew.singleton.places (.worker id index) = .probing)
    (alone : crew.singleton.pointers = [])
    (fired : (machine threads).step crew (.helper (.advance (.worker id index))) =
      some (after, emitted)) : ∃ thread, Trapped threads after id index thread := by
  have manned := manned_of_run run
  obtain ⟨phase, known⟩ := manned.represents
  obtain ⟨bound, runs, current⟩ := manned.busy id index (.inl (by rw [probing]; exact nofun))
  have mine := known.present id current.1.present
  obtain ⟨thread, rfl⟩ : ∃ thread, phase = .tearing thread (some id) := by
    cases phase with
    | vacant => cases mine
    | building thread manager =>
      cases manager with
      | none => cases mine
      | some other =>
        simp only [Phase.present, Option.some.injEq, Prod.mk.injEq] at mine
        rcases current.1 with life | life <;> rw [life] at mine <;> cases mine.2
    | alive manager =>
      obtain ⟨owner, listed⟩ := known.owned manager rfl
      rw [alone] at listed
      cases listed
    | tearing thread manager =>
      cases manager with
      | none => cases mine
      | some other =>
        simp only [Phase.present, Option.some.injEq, Prod.mk.injEq] at mine
        exact ⟨thread, by rw [mine.1]⟩
  have tearing : crew.singleton.places thread = .destroying id := by
    have relies := known.active thread rfl
    cases place : crew.singleton.places thread <;> rw [place] at relies <;> cases relies
    rfl
  have quiet : ∀ other, other ≠ thread → calm (crew.singleton.places other) = true := by
    intro other apart
    obtain ⟨free, elsewhere⟩ := known.alone rfl other apart
    exact calm_of_claim free elsewhere
  have turn := step_turn fired
  cases turn with
  | helped action singleton events moved joined mine =>
    have apart : thread ≠ .worker id index := by
      rintro rfl
      rw [tearing] at probing
      cases probing
    simp only [DynSingleton.step, probing, DynSingleton.advance, lock_none alone,
      Option.some.injEq, Prod.mk.injEq] at moved
    obtain ⟨rfl, -⟩ := moved
    refine ⟨thread, ⟨?_, known.exists_eq, alone, fun other different => ?_, ?_, bound, runs⟩⟩
    · exact (Function.update_of_ne apart ..).trans tearing
    · simp only [DynSingleton.goTo, Function.update_apply]
      split
      · rfl
      · exact quiet other different
    · simp [DynSingleton.goTo, inMake]
  | told other place here =>
    rw [probing] at here
    cases here

theorem Trapped.step (trapped : Trapped threads crew id index thread)
    {action : ManagerSingleton.Action Thread} {singleton : DynSingleton Thread}
    (moved : crew.singleton.step action = some (singleton, events))
    (apart : action ≠ .advance thread) {workers : ManagerId → Nat → Worker}
    {joining : ManagerId → Bool} (runs : (workers id index).returned = false) :
    Trapped threads ⟨singleton, workers, joining⟩ id index thread ∧ events = [] := by
  obtain ⟨barred, silent⟩ := calm_step trapped.exists_eq trapped.pointers (fun other advances => by
    refine trapped.others other ?_
    rintro rfl
    exact apart advances) moved
  have still := barred.same thread (by rw [trapped.tearing]; rfl)
  refine ⟨⟨still.trans trapped.tearing, barred.exists_eq, barred.pointers,
    fun other different => barred.stays other (trapped.others other different),
    barred.inside _ trapped.inside, trapped.bound, runs⟩, silent⟩

theorem Trapped.setWorker (trapped : Trapped threads crew id index thread) {other : ManagerId}
    {place : Nat} {worker : Worker}
    (runs : other = id → place = index → worker.returned = false) :
    ((crew.setWorker other place worker).workers id index).returned = false := by
  by_cases same : id = other ∧ index = place
  · obtain ⟨rfl, rfl⟩ := same
    rw [setWorker_self]
    exact runs rfl rfl
  · rw [setWorker_other _ _ same]
    exact trapped.runs

theorem trapped_turn (trapped : Trapped threads crew id index thread)
    (turn : Turn threads crew action after emitted) :
    Trapped threads after id index thread ∧ emitted = [] := by
  have keep : ∀ (workers : ManagerId → Nat → Worker) (joining : ManagerId → Bool),
      (workers id index).returned = false →
        Trapped threads ⟨crew.singleton, workers, joining⟩ id index thread :=
    fun workers joining runs => ⟨trapped.tearing, trapped.exists_eq, trapped.pointers,
      trapped.others, trapped.inside, trapped.bound, runs⟩
  cases turn with
  | helped action singleton events moved joined mine =>
    refine trapped.step moved ?_ trapped.runs
    rintro rfl
    have returned := joined thread id rfl trapped.tearing index trapped.bound
    rw [trapped.runs] at returned
    cases returned
  | told other place here => exact ⟨keep _ _ trapped.runs, rfl⟩
  | deliver other place cmd published standing =>
    refine ⟨keep _ _ (trapped.setWorker ?_), rfl⟩
    rintro rfl rfl
    exact trapped.runs
  | pop other place cmd rest bound standing runs queued =>
    exact ⟨keep _ _ (trapped.setWorker (fun _ _ => runs)), rfl⟩
  | quit other place idle outside =>
    refine ⟨keep _ _ (trapped.setWorker ?_), rfl⟩
    rintro rfl rfl
    have inside := trapped.inside
    rw [outside] at inside
    cases inside
  | endRun other place rest duty =>
    refine ⟨keep _ _ (trapped.setWorker ?_), rfl⟩
    rintro rfl rfl
    exact trapped.runs
  | workGet other place rest singleton events duty moved =>
    refine trapped.step moved nofun (trapped.setWorker ?_)
    rintro rfl rfl
    exact trapped.runs
  | workDrop other place pointer rest singleton events duty moved =>
    refine trapped.step moved nofun (trapped.setWorker ?_)
    rintro rfl rfl
    exact trapped.runs

theorem trapped_of_steps {more : List Event} {final : Crew}
    (trapped : Trapped threads crew id index thread)
    (steps : Steps (machine threads) anyStep crew more final) :
    Trapped threads final id index thread ∧ more = [] := by
  refine Steps.invariant (fun more final => Trapped threads final id index thread ∧ more = [])
    ⟨trapped, rfl⟩ ?_ steps
  rintro more crew action emitted after - ⟨before, rfl⟩ - fired
  obtain ⟨now, rfl⟩ := trapped_turn before (step_turn fired)
  exact ⟨now, rfl⟩

end Runs

/-- Shutdown and workers do not wait for each other as long as workers look for the
manager while somebody holds a pointer. A worker that looks for it later never
comes out of `manager::get`, nor does `~manager` return. -/
theorem no_deadlock {threads : Nat} {events : List Event} {crew : Crew} :
    (Run (machine threads) FindsManager events crew → ¬ Deadlocked threads crew) ∧
    (Run (machine threads) anyStep events crew → ∀ id index after emitted more final,
      crew.singleton.places (.worker id index) = .probing → crew.singleton.pointers = [] →
      (machine threads).step crew (.helper (.advance (.worker id index))) = some (after, emitted) →
      Steps (machine threads) anyStep after more final →
      (∃ thread, final.singleton.places thread = .destroying id) ∧
        inMake (final.singleton.places (.worker id index)) = true ∧
          ∀ pointer, .got (.worker id index) pointer ∉ more) := by
  constructor
  · rintro run ⟨thread, id, index, -, -, -, -, blocked⟩
    have prompt := prompt_of_run run id index
    rcases blocked with ⟨here, -⟩ | ⟨here, -⟩ <;> rw [here] at prompt <;> cases prompt
  · intro run id index after emitted more final probing alone fired steps
    obtain ⟨thread, trapped⟩ := trapped_of_run run probing alone fired
    obtain ⟨now, rfl⟩ := trapped_of_steps trapped steps
    exact ⟨⟨thread, now.tearing⟩, now.inside, nofun⟩

def started : List Action :=
  .helper (.get (.app 0)) :: List.replicate 10 (.helper (.advance (.app 0)))

/-- A request comes in, and the last pointer is released before the worker looks
for the manager. -/
def lateRequest : List Action :=
  started ++ [.deliver 0 0 (.request true), .helper (.release (.app 0) 0), .pop 0 0, .workGet 0 0]

/-- The worker constructs a request handler while the manager is destroyed. -/
theorem request_deadlock : ¬ ∀ events crew, Run (machine 1) anyStep events crew →
    ¬ Deadlocked 1 crew := by
  intro claim
  refine claim _ _ (run_reached (machine 1) (lateRequest ++
    List.replicate 5 (.helper (.advance (.worker 0 0))) ++ [.helper (.advance (.app 0))]))
    ⟨.app 0, 0, 0, ?_, ?_, ?_, ?_, .inr ⟨?_, ?_⟩⟩ <;> decide +kernel

instance (crew : Crew) (action : Action) : Decidable (FindsManager crew action) :=
  match action with
  | .helper (.advance (.worker _ _)) => inferInstanceAs (Decidable (_ = Place.probing → _ ≠ []))
  | .helper (.advance (.app _)) | .helper (.get _) | .helper (.copy _ _ _) |
    .helper (.release _ _) => isTrue trivial
  | .deliver _ _ _ | .pop _ _ | .workGet _ _ | .endRun _ _ | .workDrop _ _ _ => isTrue trivial

/-- A request that is done before the release, and the late one. -/
theorem no_deadlock_request :
    (∃ events crew, Run (machine 1) FindsManager events crew ∧
      .destroyed 0 ∈ events ∧ ¬ Deadlocked 1 crew) ∧
    ∃ events crew, Run (machine 1) anyStep events crew ∧
      (∃ thread, crew.singleton.places thread = .destroying 0) ∧
        inMake (crew.singleton.places (.worker 0 0)) = true := by
  constructor
  · have run : Run (machine 1) FindsManager _ _ :=
      Steps.of_guarded (run_reached ((machine 1).guarded FindsManager)
        (started ++ [.deliver 0 0 (.request false), .pop 0 0, .workGet 0 0,
          .helper (.advance (.worker 0 0)), .helper (.advance (.worker 0 0)), .endRun 0 0,
          .workDrop 0 0 0, .helper (.release (.app 0) 0), .helper (.advance (.app 0)), .pop 0 0,
          .helper (.advance (.app 0))]))
    exact ⟨_, _, run, by decide +kernel, no_deadlock.1 run⟩
  · have run := run_reached (machine 1) lateRequest
    have fired : (machine 1).step (reached (machine 1) lateRequest).1
        (.helper (.advance (.worker 0 0))) = some (_, []) :=
      step_of_enabled (by decide +kernel) (by decide +kernel)
    have stuck := no_deadlock.2 run 0 0 _ _ [] _ (by decide +kernel) (by decide +kernel) fired .refl
    exact ⟨_, _, run.next trivial fired, stuck.1, stuck.2.1⟩

end Rpcz.TeardownDeadlock
