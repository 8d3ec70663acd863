import Rpcz.Monitors

/-!
sync_event.cc. The constructor of the manager, `manager::run` and every sync
call wait for an event that another thread signals. The event may be a local
variable of the thread that waits, which destroys it when `wait` has returned,
maybe before the other thread has returned from `signal`.
-/

namespace Rpcz.SyncEvent
open Automaton Monitors

inductive Member where
  | wait
  | signal
deriving DecidableEq

/-- `while (!ready_) cond_.wait(lock)`, and `ready_ = true; cond_.notify_all()`. -/
def visits : Member → Visit Bool
  | .wait => ⟨fun ready => ready, fun ready => ready, .nobody⟩
  | .signal => ⟨fun _ => true, fun _ => true, .all⟩

def machine (Thread : Type) [DecidableEq Thread] :
    Machine (Monitor Thread Member Bool) (Action Thread Member) (Event Thread Member) :=
  Monitors.machine visits false

inductive Use (Thread : Type) where
  | set (thread : Thread)
  | pass (thread : Thread)
deriving DecidableEq

/-- A latch is passed only when it is set. -/
def latch (Thread : Type) : Machine Bool (Use Thread) (Use Thread) where
  start := false
  step ready use :=
    match use with
    | .set thread => some (true, [.set thread])
    | .pass thread => if ready then some (true, [.pass thread]) else none

variable {Thread : Type}

/-- The latch is set when `ready_` is, and passed when `wait` returns. -/
def use? : Event Thread Member → Option (Use Thread)
  | .changed thread .signal => some (.set thread)
  | .returned thread .wait => some (.pass thread)
  | _ => none

def signals : Event Thread Member → Bool
  | .entered _ .signal => true
  | _ => false

section Runs
variable [DecidableEq Thread] {state after : Monitor Thread Member Bool}
  {events : List (Event Thread Member)} {thread other : Thread}

theorem stable : Stable visits := by
  intro kind other data met
  cases kind with
  | wait =>
    cases other with
    | wait => exact met
    | signal => rfl
  | signal => rfl

omit [DecidableEq Thread] in
theorem rouses (kind : Member) (action : Action Thread Member) :
    Rouses visits kind state action := by
  intro waker enables
  obtain ⟨data, unmet, met⟩ := enables
  cases waker with
  | wait =>
    change (visits kind).test data = true at met
    rw [unmet] at met
    cases met
  | signal => exact .inl rfl

theorem attended (run : Run (machine Thread) anyStep events state) (kind : Member) :
    Attended visits kind state :=
  attended_of_run (fun _ action _ => rouses kind action) run

theorem awake (run : Run (machine Thread) anyStep events state) (ready : state.data = true)
    (calm : ∀ waker, state.mutex = some waker → ∀ kind, state.places waker ≠ .notifying kind) :
    state.asleep = [] := by
  have guarded := guarded_of_run run
  apply List.eq_nil_iff_forall_not_mem.mpr
  intro sleeper listed
  obtain ⟨kind, at_⟩ := guarded.asleep sleeper listed
  have unmet := (attended run kind).unmet guarded calm listed at_
  cases kind with
  | wait =>
    change state.data = false at unmet
    rw [ready] at unmet
    cases unmet
  | signal => cases unmet

theorem passable (run : Run (machine Thread) anyStep events state) (ready : state.data = true)
    (calm : ∀ waker, state.mutex = some waker → ∀ kind, state.places waker ≠ .notifying kind) :
    Passable visits state where
  met kind := by
    cases kind with
    | wait => exact ready
    | signal => rfl
  awake := awake run ready calm

theorem ready_past (run : Run (machine Thread) anyStep events state) (kind : Member)
    (past : (state.places thread).isDone kind) : state.data = true := by
  refine past_of_run (fun _ data => data = true) ?_ ?_ run thread kind past
  · intro kind data met
    cases kind with
    | wait => exact met
    | signal => rfl
  · intro kind other data ready
    cases other with
    | wait => exact ready
    | signal => rfl

theorem set_of_run (run : Run (machine Thread) anyStep events state) (ready : state.data = true) :
    ∃ other, .changed other .signal ∈ events := by
  refine run.invariant (fun events state => state.data = true →
    ∃ other, .changed other .signal ∈ events) ?_ ?_ ready
  · intro unset
    cases unset
  · intro events state action emitted after earlier known permitted fired ready
    have old : state.data = true → ∃ other, .changed other .signal ∈ events ++ emitted :=
      fun set => (known set).imp fun other listed => List.mem_append_left _ listed
    cases step_move fired with
    | change mover chosen kind at_ =>
      cases kind with
      | wait => exact old ready
      | signal => exact ⟨mover, List.mem_append_right _ (List.mem_singleton_self _)⟩
    | visit mover kind at_ => exact old ready
    | lock mover chosen kind at_ free awake => exact old ready
    | pass mover chosen kind at_ met => exact old ready
    | sleep mover chosen kind at_ unmet => exact old ready
    | notify mover chosen kind asleep at_ left => exact old ready
    | unlock mover chosen kind at_ => exact old ready
    | leave mover chosen kind at_ => exact old ready
    | rouse mover listed => exact old ready

theorem leaving_of_unlocked {action : Action Thread Member} {emitted : List (Event Thread Member)}
    {kind : Member} (move : Move visits state action after emitted)
    (unlocked : .unlocked thread kind ∈ emitted) : state.places thread = .leaving kind := by
  cases move <;> simp only [List.mem_singleton, List.not_mem_nil, reduceCtorEq] at unlocked
  case unlock mover chosen other at_ =>
    cases unlocked
    exact at_

theorem returning_of_returned {action : Action Thread Member}
    {emitted : List (Event Thread Member)} {kind : Member}
    (move : Move visits state action after emitted) (returned : .returned thread kind ∈ emitted) :
    state.places thread = .returning kind ∧ emitted = [.returned thread kind] := by
  cases move <;> simp only [List.mem_singleton, List.not_mem_nil, reduceCtorEq] at returned
  case leave mover chosen other at_ =>
    cases returned
    exact ⟨at_, rfl⟩

theorem passable_of_unlocked (run : Run (machine Thread) anyStep events state)
    (unlocked : .unlocked other .signal ∈ events) : Passable visits state := by
  refine run.invariant (fun events state => .unlocked other .signal ∈ events →
    Passable visits state) ?_ ?_ unlocked
  · intro listed
    cases listed
  · intro events state action emitted after earlier known permitted fired listed
    have move := step_move fired
    rcases List.mem_append.mp listed with old | new
    · exact (known old).move stable move
    · have leaving := leaving_of_unlocked move new
      have guarded := guarded_of_run earlier
      have calm := guarded.calm other (by rw [leaving]; rfl) (by simp [leaving])
      have ready := ready_past earlier .signal (.inl (.inr leaving))
      exact (passable earlier ready calm).move stable move

theorem signal_of_returning (run : Run (machine Thread) anyStep events state)
    (waited : state.places thread = .returning .wait) :
    ∃ other, .unlocked other .signal ∈ events := by
  refine run.invariant (fun events state => state.places thread = .returning .wait →
    ∃ other, .unlocked other .signal ∈ events) ?_ ?_ waited
  · intro standing
    cases standing
  · intro events state action emitted after earlier known permitted fired standing
    have old : state.places thread = .returning .wait →
        ∃ other, .unlocked other .signal ∈ events ++ emitted :=
      fun same => (known same).imp fun other listed => List.mem_append_left _ listed
    have elsewhere : ∀ (origin : Monitor Thread Member Bool) (mover : Thread) (place : Place Member),
        origin.places = state.places → (origin.goTo mover place).places thread = .returning .wait →
        place ≠ .returning .wait → state.places thread = .returning .wait := by
      intro origin mover place places moved never
      rw [places_goTo, places] at moved
      split at moved
      · exact absurd moved never
      · exact moved
    cases step_move fired with
    | visit mover kind at_ => exact old (elsewhere _ _ _ rfl standing (by simp))
    | lock mover chosen kind at_ free awake =>
      exact old (elsewhere { state with mutex := some mover } _ _ rfl standing (by simp))
    | pass mover chosen kind at_ met => exact old (elsewhere _ _ _ rfl standing (by simp))
    | sleep mover chosen kind at_ unmet =>
      exact old (elsewhere { state with mutex := none, asleep := mover :: state.asleep } _ _ rfl
        standing (by simp))
    | change mover chosen kind at_ =>
      exact old (elsewhere { state with data := (visits kind).change state.data } _ _ rfl standing
        (by simp))
    | notify mover chosen kind asleep at_ left =>
      exact old (elsewhere { state with asleep := asleep } _ _ rfl standing (by simp))
    | unlock mover chosen kind at_ =>
      by_cases fresh : thread = mover ∧ kind = .wait
      · obtain ⟨same, waits⟩ := fresh
        subst same waits
        have guarded := guarded_of_run earlier
        obtain ⟨other, set⟩ := set_of_run earlier (ready_past earlier .wait (.inl (.inr at_)))
        rcases unlocked_of_run earlier set with unlocked | past
        · exact ⟨other, List.mem_append_left _ unlocked⟩
        · -- the mutex belongs to the thread that leaves `wait`
          have mine := guarded.owner thread (by rw [at_]; rfl)
          have holds : (state.places other).holds = true := by
            rcases past with there | there <;> rw [there] <;> rfl
          rw [guarded.owner other holds] at mine
          cases mine
          rw [Place.isPast, at_] at past
          rcases past with there | there <;> cases there
      · rw [places_goTo] at standing
        split at standing
        · next same =>
          cases standing
          exact absurd ⟨same, rfl⟩ fresh
        · exact old standing
    | leave mover chosen kind at_ => exact old (elsewhere _ _ _ rfl standing (by simp))
    | rouse mover listed => exact old standing

/-- The thread that set `ready_` has unlocked the mutex before a `wait` returns. -/
theorem signal_behind {before rest : List (Event Thread Member)}
    (run : Run (machine Thread) anyStep events state)
    (split : events = before ++ .returned thread .wait :: rest) :
    ∃ other, .unlocked other .signal ∈ before := by
  subst split
  obtain ⟨earlier, pre, post, later, origin, action, next, run, permitted, fired, front, -, -⟩ :=
    run.occurs
  have left := returning_of_returned (step_move fired)
    (List.mem_append_right pre List.mem_cons_self : .returned thread .wait ∈ _)
  have alone : pre = [] := by
    have single := congrArg List.length left.2
    simp only [List.length_append, List.length_cons, List.length_nil] at single
    apply List.eq_nil_of_length_eq_zero
    omega
  rw [front, alone, List.append_nil]
  exact signal_of_returning run left.1

/-- Where `signal` is called once, it has done its last access when a `wait` has returned. -/
theorem unused_behind (run : Run (machine Thread) anyStep events state)
    (once : (events.filter signals).length ≤ 1) (waited : .returned thread .wait ∈ events)
    (other : Thread) : (state.places other).uses ≠ some .signal := by
  intro inside
  obtain ⟨before, rest, split⟩ := List.append_of_mem waited
  obtain ⟨setter, unlocked⟩ := signal_behind run split
  have calls : ∀ caller, 0 < events.count (.entered caller .signal) →
      (.entered caller .signal) ∈ events.filter signals := by
    intro caller called
    exact List.mem_filter.mpr ⟨List.count_pos_iff.mp called, rfl⟩
  have back : 0 < events.count (.unlocked setter .signal) := by
    apply List.count_pos_iff.mpr
    rw [split]
    exact List.mem_append_left _ unlocked
  have first := entered_of_run run setter .signal
  have second := entered_of_run run other .signal
  rw [if_pos inside] at second
  have same : other = setter := by
    have mine := calls setter (by omega)
    have yours := calls other (by omega)
    obtain ⟨only, single⟩ := List.length_eq_one_iff.mp
      (Nat.le_antisymm once (List.length_pos_of_mem mine))
    rw [single, List.mem_singleton] at mine yours
    cases mine.trans yours.symm
    rfl
  subst same
  have twice : events.count (.entered other .signal) ≤ (events.filter signals).length := by
    have kept : signals (.entered other .signal) = true := rfl
    rw [← List.count_filter kept]
    exact List.count_le_length
  omega

theorem latched (run : Run (machine Thread) anyStep events state) :
    Run (latch Thread) anyStep (events.filterMap use?) state.data := by
  refine run.invariant (fun events state =>
    Run (latch Thread) anyStep (events.filterMap use?) state.data) .refl ?_
  intro events state action emitted after earlier known permitted fired
  have silent : emitted.filterMap use? = [] → after.data = state.data →
      Run (latch Thread) anyStep ((events ++ emitted).filterMap use?) after.data := by
    intro unseen same
    rw [List.filterMap_append, unseen, List.append_nil, same]
    exact known
  have seen : ∀ use, emitted.filterMap use? = [use] →
      (latch Thread).step state.data use = some (after.data, [use]) →
      Run (latch Thread) anyStep ((events ++ emitted).filterMap use?) after.data := by
    intro use shown taken
    rw [List.filterMap_append, shown]
    exact known.next trivial taken
  cases step_move fired with
  | visit mover kind at_ => exact silent rfl rfl
  | lock mover chosen kind at_ free awake => exact silent rfl rfl
  | pass mover chosen kind at_ met => exact silent rfl rfl
  | sleep mover chosen kind at_ unmet => exact silent rfl rfl
  | change mover chosen kind at_ =>
    cases kind with
    | wait => exact silent rfl rfl
    | signal => exact seen (.set mover) rfl rfl
  | notify mover chosen kind asleep at_ left => exact silent rfl rfl
  | unlock mover chosen kind at_ => exact silent rfl rfl
  | leave mover chosen kind at_ =>
    cases kind with
    | wait =>
      have ready := ready_past earlier .wait (.inr at_)
      apply seen (.pass mover) rfl
      change (if state.data = true then some (true, _) else none) = some (state.data, _)
      rw [ready]
      rfl
    | signal => exact silent rfl rfl
  | rouse mover listed => exact silent rfl rfl

structure Releases (events : List (Event Thread Member)) (state : Monitor Thread Member Bool) :
    Prop where
  /-- `wait` returns behind the unlock of a `signal`. -/
  behind : ∀ before rest thread, events = before ++ .returned thread .wait :: rest →
    ∃ other, .unlocked other .signal ∈ before
  /-- Where `signal` is called once, a thread that has waited may destroy the
  event: the other thread has at most to return. -/
  unused : (events.filter signals).length ≤ 1 → ∀ thread, .returned thread .wait ∈ events →
    ∀ other, (state.places other).uses ≠ some .signal
  /-- A thread sleeps only until the signal. -/
  awake : (∃ other, .unlocked other .signal ∈ events) → state.asleep = []
  /-- Behind the signal a thread in `wait` goes on, or the owner of the mutex does. -/
  goesOn : (∃ other, .unlocked other .signal ∈ events) → ∀ thread,
    state.places thread ≠ .outside → (state.step visits (.advance thread thread)).isSome = true ∨
      ∃ owner, state.mutex = some owner ∧ (state.step visits (.advance owner owner)).isSome = true
  /-- No step puts it back. -/
  nearer : (∃ other, .unlocked other .signal ∈ events) → ∀ action after emitted,
    state.step visits action = some (after, emitted) → ∀ thread, state.places thread ≠ .outside →
      (after.places thread).rank + (if action.advances thread then 1 else 0) =
        (state.places thread).rank

/-- In every run of any threads the event is a latch, no wake-up is lost and
`wait` returns when the thread that called `signal` has unlocked the mutex. -/
theorem event_releases (run : Run (machine Thread) anyStep events state) :
    Releases events state ∧ Run (latch Thread) anyStep (events.filterMap use?) state.data := by
  refine ⟨?_, latched run⟩
  constructor
  case behind =>
    intro before rest thread split
    exact signal_behind run split
  case unused =>
    intro once thread waited other
    exact unused_behind run once waited other
  case awake =>
    intro signalled
    obtain ⟨other, unlocked⟩ := signalled
    exact (passable_of_unlocked run unlocked).awake
  case goesOn =>
    intro signalled thread inside
    obtain ⟨other, unlocked⟩ := signalled
    exact (passable_of_unlocked run unlocked).goes_on (guarded_of_run run) inside
  case nearer =>
    intro signalled action after emitted fired thread inside
    obtain ⟨other, unlocked⟩ := signalled
    exact (passable_of_unlocked run unlocked).nearer (step_move fired) inside

end Runs

/-- Thread 0 waits, is woken by nobody and sleeps again, and returns while
thread 1 is still in `signal`. -/
def waited : List (Action Nat Member) :=
  [.visit 0 .wait, .advance 0 0, .advance 0 0, .rouse 0, .advance 0 0, .advance 0 0,
    .visit 1 .signal, .advance 1 1, .advance 1 1, .advance 1 1, .advance 1 1, .advance 1 1,
    .advance 0 0, .advance 0 0, .advance 0 0, .advance 0 0, .advance 0 0, .advance 0 0]

theorem event_releases_waited :
    (reached (machine Nat) waited).2.getLast? = some (.returned 0 .wait) ∧
      (reached (machine Nat) waited).1.places 1 = .returning .signal ∧
      ∃ other, .unlocked other .signal ∈ (reached (machine Nat) waited).2.dropLast := by
  have ends : (reached (machine Nat) waited).2 =
      (reached (machine Nat) waited).2.dropLast ++ [.returned 0 .wait] := by
    decide +kernel
  refine ⟨by decide +kernel, by decide +kernel, ?_⟩
  exact (event_releases (run_reached (machine Nat) waited)).1.behind _ _ 0 ends

end Rpcz.SyncEvent
