import Rpcz.Automaton
import Mathlib.Logic.Function.Basic
import Mathlib.Data.List.Nodup

/-!
A monitor: data behind a mutex with a condition variable. A thread visits the
monitor to wait until a test of the data holds, to change the data and to
notify. A wait may end without a notification, and the test is then repeated.
-/

namespace Rpcz.Monitors
open Automaton

universe u v w

inductive Notice where
  | nobody
  | one
  | all
deriving DecidableEq

/-- What a thread does in the monitor: `while (!test) wait`, then `change`, then the notice. -/
structure Visit (Data : Type w) where
  test : Data → Bool
  change : Data → Data
  notice : Notice

inductive Place (Kind : Type v) where
  | outside
  /-- In front of the lock of the mutex, or in the wait for the condition. -/
  | entering (kind : Kind)
  /-- Holds the mutex, in front of the test. -/
  | testing (kind : Kind)
  /-- The test held. -/
  | changing (kind : Kind)
  | notifying (kind : Kind)
  /-- In front of the unlock of the mutex. -/
  | leaving (kind : Kind)
  /-- Has unlocked the mutex, in front of the return. -/
  | returning (kind : Kind)
deriving DecidableEq

/-- `asleep` lists the threads in the wait that nothing has woken. -/
structure Monitor (Thread : Type u) (Kind : Type v) (Data : Type w) where
  places : Thread → Place Kind
  data : Data
  mutex : Option Thread
  asleep : List Thread

inductive Action (Thread : Type u) (Kind : Type v) where
  | visit (thread : Thread) (kind : Kind)
  /-- The next step of a visit. `chosen` is the thread `notify_one` wakes. -/
  | advance (thread chosen : Thread)
  /-- A wait ends without a notification. -/
  | rouse (thread : Thread)
deriving DecidableEq

inductive Event (Thread : Type u) (Kind : Type v) where
  | entered (thread : Thread) (kind : Kind)
  | changed (thread : Thread) (kind : Kind)
  | unlocked (thread : Thread) (kind : Kind)
  | returned (thread : Thread) (kind : Kind)
deriving DecidableEq

variable {Thread : Type u} {Kind : Type v} {Data : Type w}

namespace Monitor

def new (data : Data) : Monitor Thread Kind Data :=
  ⟨fun _ => .outside, data, none, []⟩

variable [DecidableEq Thread]

def goTo (monitor : Monitor Thread Kind Data) (thread : Thread) (place : Place Kind) :
    Monitor Thread Kind Data :=
  { monitor with places := Function.update monitor.places thread place }

def notify (asleep : List Thread) (chosen : Thread) : Notice → Option (List Thread)
  | .nobody => some asleep
  | .one => if asleep = [] ∨ chosen ∈ asleep then some (asleep.erase chosen) else none
  | .all => some []

def advance (visits : Kind → Visit Data) (monitor : Monitor Thread Kind Data)
    (thread chosen : Thread) :
    Place Kind → Option (Monitor Thread Kind Data × List (Event Thread Kind))
  | .outside => none
  | .entering kind =>
    if monitor.mutex = none ∧ thread ∉ monitor.asleep then
      some ({ monitor with mutex := some thread }.goTo thread (.testing kind), [])
    else none
  | .testing kind =>
    if (visits kind).test monitor.data then some (monitor.goTo thread (.changing kind), [])
    else
      some ({ monitor with mutex := none, asleep := thread :: monitor.asleep }.goTo thread
        (.entering kind), [])
  | .changing kind =>
    some ({ monitor with data := (visits kind).change monitor.data }.goTo thread (.notifying kind),
      [.changed thread kind])
  | .notifying kind =>
    (notify monitor.asleep chosen (visits kind).notice).map fun asleep =>
      ({ monitor with asleep := asleep }.goTo thread (.leaving kind), [])
  | .leaving kind =>
    some ({ monitor with mutex := none }.goTo thread (.returning kind), [.unlocked thread kind])
  | .returning kind => some (monitor.goTo thread .outside, [.returned thread kind])

def step (visits : Kind → Visit Data) (monitor : Monitor Thread Kind Data) :
    Action Thread Kind → Option (Monitor Thread Kind Data × List (Event Thread Kind))
  | .visit thread kind =>
    match monitor.places thread with
    | .outside => some (monitor.goTo thread (.entering kind), [.entered thread kind])
    | _ => none
  | .advance thread chosen => monitor.advance visits thread chosen (monitor.places thread)
  | .rouse thread =>
    if thread ∈ monitor.asleep then
      some ({ monitor with asleep := monitor.asleep.erase thread }, [])
    else none

end Monitor

def machine [DecidableEq Thread] (visits : Kind → Visit Data) (data : Data) :
    Machine (Monitor Thread Kind Data) (Action Thread Kind) (Event Thread Kind) :=
  ⟨.new data, Monitor.step visits⟩

def Place.holds : Place Kind → Bool
  | .outside | .entering _ | .returning _ => false
  | _ => true

/-- What the mutex and the list of the sleepers say about the threads. -/
structure Guarded (visits : Kind → Visit Data) (monitor : Monitor Thread Kind Data) : Prop where
  owner : ∀ thread, (monitor.places thread).holds = true → monitor.mutex = some thread
  inside : ∀ thread, monitor.mutex = some thread → (monitor.places thread).holds = true
  asleep : ∀ thread, thread ∈ monitor.asleep → ∃ kind, monitor.places thread = .entering kind
  distinct : monitor.asleep.Nodup
  /-- Nobody but the owner of the mutex changes the data. -/
  tested : ∀ thread kind, monitor.places thread = .changing kind →
    (visits kind).test monitor.data = true

section Steps
variable [DecidableEq Thread] {visits : Kind → Visit Data} {monitor after : Monitor Thread Kind Data}
  {data : Data} {thread chosen : Thread} {kind : Kind} {emitted : List (Event Thread Kind)}
  {allowed : Monitor Thread Kind Data → Action Thread Kind → Prop}

theorem places_goTo (monitor : Monitor Thread Kind Data) (thread other : Thread)
    (place : Place Kind) :
    (monitor.goTo thread place).places other =
      if other = thread then place else monitor.places other := by
  simp [Monitor.goTo, Function.update_apply]

inductive Move (visits : Kind → Visit Data) (monitor : Monitor Thread Kind Data) :
    Action Thread Kind → Monitor Thread Kind Data → List (Event Thread Kind) → Prop where
  | visit (thread : Thread) (kind : Kind) (at_ : monitor.places thread = .outside) :
      Move visits monitor (.visit thread kind) (monitor.goTo thread (.entering kind))
        [.entered thread kind]
  | lock (thread chosen : Thread) (kind : Kind) (at_ : monitor.places thread = .entering kind)
      (free : monitor.mutex = none) (awake : thread ∉ monitor.asleep) :
      Move visits monitor (.advance thread chosen)
        ({ monitor with mutex := some thread }.goTo thread (.testing kind)) []
  | pass (thread chosen : Thread) (kind : Kind) (at_ : monitor.places thread = .testing kind)
      (met : (visits kind).test monitor.data = true) :
      Move visits monitor (.advance thread chosen) (monitor.goTo thread (.changing kind)) []
  | sleep (thread chosen : Thread) (kind : Kind) (at_ : monitor.places thread = .testing kind)
      (unmet : (visits kind).test monitor.data = false) :
      Move visits monitor (.advance thread chosen)
        ({ monitor with mutex := none, asleep := thread :: monitor.asleep }.goTo thread
          (.entering kind)) []
  | change (thread chosen : Thread) (kind : Kind) (at_ : monitor.places thread = .changing kind) :
      Move visits monitor (.advance thread chosen)
        ({ monitor with data := (visits kind).change monitor.data }.goTo thread (.notifying kind))
        [.changed thread kind]
  | notify (thread chosen : Thread) (kind : Kind) (asleep : List Thread)
      (at_ : monitor.places thread = .notifying kind)
      (left : Monitor.notify monitor.asleep chosen (visits kind).notice = some asleep) :
      Move visits monitor (.advance thread chosen)
        ({ monitor with asleep := asleep }.goTo thread (.leaving kind)) []
  | unlock (thread chosen : Thread) (kind : Kind) (at_ : monitor.places thread = .leaving kind) :
      Move visits monitor (.advance thread chosen)
        ({ monitor with mutex := none }.goTo thread (.returning kind)) [.unlocked thread kind]
  | leave (thread chosen : Thread) (kind : Kind) (at_ : monitor.places thread = .returning kind) :
      Move visits monitor (.advance thread chosen) (monitor.goTo thread .outside)
        [.returned thread kind]
  | rouse (thread : Thread) (listed : thread ∈ monitor.asleep) :
      Move visits monitor (.rouse thread)
        { monitor with asleep := monitor.asleep.erase thread } []

theorem step_move {action : Action Thread Kind}
    (fired : monitor.step visits action = some (after, emitted)) :
    Move visits monitor action after emitted := by
  cases action with
  | visit thread kind =>
    simp only [Monitor.step] at fired
    split at fired
    · next at_ =>
      cases fired
      exact .visit thread kind at_
    · cases fired
  | advance thread chosen =>
    simp only [Monitor.step] at fired
    cases at_ : monitor.places thread with
    | outside =>
      rw [at_] at fired
      cases fired
    | entering kind =>
      rw [at_] at fired
      simp only [Monitor.advance] at fired
      split at fired
      · next free =>
        cases fired
        exact .lock thread chosen kind at_ free.1 free.2
      · cases fired
    | testing kind =>
      rw [at_] at fired
      simp only [Monitor.advance] at fired
      split at fired
      · next met =>
        cases fired
        exact .pass thread chosen kind at_ met
      · next unmet =>
        cases fired
        exact .sleep thread chosen kind at_ (by simpa using unmet)
    | changing kind =>
      rw [at_] at fired
      cases fired
      exact .change thread chosen kind at_
    | notifying kind =>
      rw [at_] at fired
      obtain ⟨asleep, left, same⟩ := Option.map_eq_some_iff.mp fired
      cases same
      exact .notify thread chosen kind asleep at_ left
    | leaving kind =>
      rw [at_] at fired
      cases fired
      exact .unlock thread chosen kind at_
    | returning kind =>
      rw [at_] at fired
      cases fired
      exact .leave thread chosen kind at_
  | rouse thread =>
    simp only [Monitor.step] at fired
    split at fired
    · next listed =>
      cases fired
      exact .rouse thread listed
    · cases fired

theorem notify_sublist {asleep left : List Thread} {notice : Notice}
    (noticed : Monitor.notify asleep chosen notice = some left) : left.Sublist asleep := by
  cases notice with
  | nobody =>
    cases noticed
    exact .refl _
  | one =>
    simp only [Monitor.notify] at noticed
    split at noticed
    · cases noticed
      exact List.erase_sublist
    · cases noticed
  | all =>
    cases noticed
    exact List.nil_sublist _

theorem Guarded.goTo (guarded : Guarded visits monitor) {mutex : Option Thread}
    {asleep : List Thread} {place : Place Kind} (awake : thread ∉ monitor.asleep)
    (still : asleep.Sublist monitor.asleep)
    (mine : mutex = if place.holds then some thread else none)
    (free : monitor.mutex = none ∨ monitor.mutex = some thread)
    (data : Data) (kept : (monitor.places thread).holds = true ∨ data = monitor.data)
    (tested : ∀ kind, place = .changing kind → (visits kind).test data = true) :
    Guarded visits
      ({ monitor with mutex := mutex, asleep := asleep, data := data }.goTo thread place) := by
  have alone : ∀ other, other ≠ thread → (monitor.places other).holds = false := by
    intro other different
    apply Bool.eq_false_iff.mpr
    intro holds
    have owned := guarded.owner other holds
    rcases free with free | free
    · rw [free] at owned
      cases owned
    · rw [free] at owned
      exact different (Option.some.inj owned).symm
  constructor
  case owner =>
    intro other holds
    rw [places_goTo] at holds
    split at holds
    · next same =>
      subst same
      exact mine.trans (if_pos holds)
    · next different =>
      rw [alone other different] at holds
      cases holds
  case inside =>
    intro other owned
    change mutex = some other at owned
    rw [mine] at owned
    split at owned
    · next holds =>
      cases owned
      rw [places_goTo, if_pos rfl]
      exact holds
    · cases owned
  case asleep =>
    intro other listed
    have old := still.subset listed
    have different : other ≠ thread := by
      intro same
      exact awake (same ▸ old)
    rw [places_goTo, if_neg different]
    exact guarded.asleep other old
  case distinct => exact guarded.distinct.sublist still
  case tested =>
    intro other kind at_
    rw [places_goTo] at at_
    split at at_
    · exact tested kind at_
    · next different =>
      have outside := alone other different
      rw [at_] at outside
      cases outside

omit [DecidableEq Thread] in
theorem Guarded.awake (guarded : Guarded visits monitor)
    (at_ : ∀ kind, monitor.places thread ≠ .entering kind) : thread ∉ monitor.asleep := by
  intro listed
  obtain ⟨kind, entering⟩ := guarded.asleep thread listed
  exact at_ kind entering

omit [DecidableEq Thread] in
theorem Guarded.apart (guarded : Guarded visits monitor) (thread : Thread) {sleeper : Thread}
    (at_ : ∀ kind, monitor.places thread ≠ .entering kind) (listed : sleeper ∈ monitor.asleep) :
    sleeper ≠ thread := by
  intro same
  exact guarded.awake at_ (same ▸ listed)

theorem Guarded.sleep (guarded : Guarded visits monitor)
    (at_ : monitor.places thread = .testing kind) :
    Guarded visits ({ monitor with mutex := none, asleep := thread :: monitor.asleep }.goTo thread
      (.entering kind)) := by
  have awake : thread ∉ monitor.asleep := guarded.awake (by simp [at_])
  have owned := guarded.owner thread (by rw [at_]; rfl)
  have moved : Guarded visits ({ monitor with mutex := none }.goTo thread (.entering kind)) :=
    guarded.goTo awake (.refl _) rfl (.inr owned) monitor.data (.inr rfl) (by simp)
  constructor
  case owner => exact moved.owner
  case inside => exact moved.inside
  case asleep =>
    intro other listed
    rcases List.mem_cons.mp listed with same | old
    · subst same
      rw [places_goTo, if_pos rfl]
      exact ⟨kind, rfl⟩
    · exact moved.asleep other old
  case distinct => exact List.nodup_cons.mpr ⟨awake, guarded.distinct⟩
  case tested => exact moved.tested

theorem Guarded.walk (guarded : Guarded visits monitor) {place : Place Kind}
    (without : (monitor.places thread).holds = false)
    (elsewhere : ∀ kind, monitor.places thread ≠ .entering kind) (still : place.holds = false) :
    Guarded visits (monitor.goTo thread place) := by
  have awake : thread ∉ monitor.asleep := guarded.awake elsewhere
  constructor
  case owner =>
    intro other holds
    rw [places_goTo] at holds
    split at holds
    · rw [still] at holds
      cases holds
    · exact guarded.owner other holds
  case inside =>
    intro other owned
    have holds := guarded.inside other owned
    have different : other ≠ thread := by
      intro same
      rw [same, without] at holds
      cases holds
    rw [places_goTo, if_neg different]
    exact holds
  case asleep =>
    intro other listed
    have different : other ≠ thread := by
      intro same
      exact awake (same ▸ listed)
    rw [places_goTo, if_neg different]
    exact guarded.asleep other listed
  case distinct => exact guarded.distinct
  case tested =>
    intro other wanted changing
    rw [places_goTo] at changing
    split at changing
    · rw [changing] at still
      cases still
    · exact guarded.tested other wanted changing

theorem guarded_move {action : Action Thread Kind} (guarded : Guarded visits monitor)
    (move : Move visits monitor action after emitted) : Guarded visits after := by
  cases move with
  | visit thread kind at_ => exact guarded.walk (by rw [at_]; rfl) (by simp [at_]) rfl
  | lock thread chosen kind at_ free awake =>
    exact guarded.goTo awake (.refl _) rfl (.inl free) monitor.data (.inr rfl) (by simp)
  | pass thread chosen kind at_ met =>
    have owned := guarded.owner thread (by rw [at_]; rfl)
    refine guarded.goTo (guarded.awake (by simp [at_])) (.refl _) owned (.inr owned) monitor.data
      (.inr rfl) ?_
    intro other same
    cases same
    exact met
  | sleep thread chosen kind at_ unmet => exact guarded.sleep at_
  | change thread chosen kind at_ =>
    have holds : (monitor.places thread).holds = true := by rw [at_]; rfl
    have owned := guarded.owner thread holds
    exact guarded.goTo (guarded.awake (by simp [at_])) (.refl _) owned (.inr owned) _ (.inl holds)
      (by simp)
  | notify thread chosen kind asleep at_ left =>
    have owned := guarded.owner thread (by rw [at_]; rfl)
    exact guarded.goTo (guarded.awake (by simp [at_])) (notify_sublist left) owned (.inr owned)
      monitor.data (.inr rfl) (by simp)
  | unlock thread chosen kind at_ =>
    have owned := guarded.owner thread (by rw [at_]; rfl)
    exact guarded.goTo (guarded.awake (by simp [at_])) (.refl _) rfl (.inr owned) monitor.data
      (.inr rfl) (by simp)
  | leave thread chosen kind at_ => exact guarded.walk (by rw [at_]; rfl) (by simp [at_]) rfl
  | rouse thread listed =>
    constructor
    case owner => exact guarded.owner
    case inside => exact guarded.inside
    case asleep =>
      intro other left
      exact guarded.asleep other (List.mem_of_mem_erase left)
    case distinct => exact guarded.distinct.erase thread
    case tested => exact guarded.tested

omit [DecidableEq Thread] in
theorem guarded_new (data : Data) : Guarded visits (.new data : Monitor Thread Kind Data) := by
  constructor
  case owner =>
    intro thread holds
    cases holds
  case inside =>
    intro thread owned
    cases owned
  case asleep =>
    intro thread listed
    cases listed
  case distinct => exact .nil
  case tested =>
    intro thread kind at_
    cases at_

theorem guarded_of_run {events : List (Event Thread Kind)}
    (run : Run (machine visits data) allowed events monitor) : Guarded visits monitor := by
  refine run.invariant (fun _ state => Guarded visits state) (guarded_new data) ?_
  intro events state action emitted after earlier guarded permitted fired
  exact guarded_move guarded (step_move fired)

/-- A visit of the kind `other` can make the test of `kind` true. -/
def Enables (visits : Kind → Visit Data) (other kind : Kind) : Prop :=
  ∃ data, (visits kind).test data = false ∧ (visits kind).test ((visits other).change data) = true

/-- A visit that enables `kind` wakes its sleepers: it notifies all, or one
where there is no other. -/
def Rouses (visits : Kind → Visit Data) (kind : Kind) (monitor : Monitor Thread Kind Data)
    (action : Action Thread Kind) : Prop :=
  ∀ other, Enables visits other kind → (visits other).notice = .all ∨
    (visits other).notice = .one ∧ ∀ thread chosen, action = .advance thread chosen →
      monitor.places thread = .notifying other → monitor.asleep.length ≤ 1

/-- A sleeper whose test holds is about to be woken. -/
def Attended (visits : Kind → Visit Data) (kind : Kind) (monitor : Monitor Thread Kind Data) :
    Prop :=
  ∀ thread, thread ∈ monitor.asleep → monitor.places thread = .entering kind →
    (visits kind).test monitor.data = true →
    ∃ other waker, monitor.places waker = .notifying other ∧ Enables visits other kind

omit [DecidableEq Thread] in
theorem Attended.unmet (attended : Attended visits kind monitor) (guarded : Guarded visits monitor)
    (calm : ∀ waker, monitor.mutex = some waker → ∀ other, monitor.places waker ≠ .notifying other)
    (listed : thread ∈ monitor.asleep) (at_ : monitor.places thread = .entering kind) :
    (visits kind).test monitor.data = false := by
  apply Bool.eq_false_iff.mpr
  intro met
  obtain ⟨other, waker, notifying, enables⟩ := attended thread listed at_ met
  have owned := guarded.owner waker (by rw [notifying]; rfl)
  exact calm waker owned other notifying

omit [DecidableEq Thread] in
theorem Guarded.calm (guarded : Guarded visits monitor) (thread : Thread)
    (holds : (monitor.places thread).holds = true)
    (elsewhere : ∀ other, monitor.places thread ≠ .notifying other) (waker : Thread)
    (owned : monitor.mutex = some waker) (other : Kind) :
    monitor.places waker ≠ .notifying other := by
  have same := guarded.owner thread holds
  rw [owned] at same
  cases same
  exact elsewhere other

theorem notified {asleep left : List Thread} {notice : Notice}
    (noticed : Monitor.notify asleep chosen notice = some left)
    (wakes : notice = .all ∨ notice = .one ∧ asleep.length ≤ 1) : left = [] := by
  rcases wakes with all | ⟨one, short⟩
  · subst all
    cases noticed
    rfl
  · subst one
    simp only [Monitor.notify] at noticed
    split at noticed
    · next known =>
      cases noticed
      rcases known with empty | listed
      · rw [empty]
        rfl
      · apply List.eq_nil_of_length_eq_zero
        rw [List.length_erase_of_mem listed]
        omega
    · cases noticed

theorem Attended.walk (attended : Attended visits kind monitor) (guarded : Guarded visits monitor)
    {place : Place Kind} (without : (monitor.places thread).holds = false)
    (elsewhere : ∀ other, monitor.places thread ≠ .entering other) :
    Attended visits kind (monitor.goTo thread place) := by
  intro sleeper listed at_ met
  have different := guarded.apart thread elsewhere listed
  rw [places_goTo, if_neg different] at at_
  obtain ⟨wakes, waker, notifying, enables⟩ := attended sleeper listed at_ met
  have moved : waker ≠ thread := by
    intro same
    rw [← same, notifying] at without
    cases without
  refine ⟨wakes, waker, ?_, enables⟩
  rw [places_goTo, if_neg moved]
  exact notifying

theorem attended_move {action : Action Thread Kind} (guarded : Guarded visits monitor)
    (attended : Attended visits kind monitor) (rouses : Rouses visits kind monitor action)
    (move : Move visits monitor action after emitted) : Attended visits kind after := by
  intro sleeper listed at_ met
  cases move with
  | visit thread other outside =>
    exact attended.walk guarded (by rw [outside]; rfl) (by simp [outside]) sleeper listed at_ met
  | lock thread chosen other entering free awake =>
    have different : sleeper ≠ thread := by
      intro same
      exact awake (same ▸ listed)
    rw [places_goTo, if_neg different] at at_
    have unmet := attended.unmet guarded (by simp [free]) listed at_
    exact absurd met (Bool.eq_false_iff.mp unmet)
  | pass thread chosen other testing held =>
    have different := guarded.apart thread (by simp [testing]) listed
    rw [places_goTo, if_neg different] at at_
    have calm := guarded.calm thread (by rw [testing]; rfl) (by simp [testing])
    exact absurd met (Bool.eq_false_iff.mp (attended.unmet guarded calm listed at_))
  | sleep thread chosen other testing unmet =>
    have calm := guarded.calm thread (by rw [testing]; rfl) (by simp [testing])
    rcases List.mem_cons.mp listed with same | old
    · subst same
      rw [places_goTo, if_pos rfl] at at_
      cases at_
      exact absurd met (Bool.eq_false_iff.mp unmet)
    · have different := guarded.apart thread (by simp [testing]) old
      rw [places_goTo, if_neg different] at at_
      exact absurd met (Bool.eq_false_iff.mp (attended.unmet guarded calm old at_))
  | change thread chosen other changing =>
    have different := guarded.apart thread (by simp [changing]) listed
    rw [places_goTo, if_neg different] at at_
    have calm := guarded.calm thread (by rw [changing]; rfl) (by simp [changing])
    have unmet := attended.unmet guarded calm listed at_
    refine ⟨other, thread, ?_, monitor.data, unmet, met⟩
    rw [places_goTo, if_pos rfl]
  | notify thread chosen other asleep notifying left =>
    have old := (notify_sublist left).subset listed
    have different := guarded.apart thread (by simp [notifying]) old
    rw [places_goTo, if_neg different] at at_
    obtain ⟨wakes, waker, ready, enables⟩ := attended sleeper old at_ met
    have owned := guarded.owner waker (by rw [ready]; rfl)
    rw [guarded.owner thread (by rw [notifying]; rfl)] at owned
    cases owned
    rw [notifying] at ready
    cases ready
    have none_left : asleep = [] := by
      apply notified left
      exact (rouses other enables).imp_right fun sole => ⟨sole.1, sole.2 thread chosen rfl notifying⟩
    rw [none_left] at listed
    cases listed
  | unlock thread chosen other leaving =>
    have different := guarded.apart thread (by simp [leaving]) listed
    rw [places_goTo, if_neg different] at at_
    have calm := guarded.calm thread (by rw [leaving]; rfl) (by simp [leaving])
    exact absurd met (Bool.eq_false_iff.mp (attended.unmet guarded calm listed at_))
  | leave thread chosen other back =>
    exact attended.walk guarded (by rw [back]; rfl) (by simp [back]) sleeper listed at_ met
  | rouse thread known => exact attended sleeper (List.mem_of_mem_erase listed) at_ met

theorem attended_of_run {events : List (Event Thread Kind)}
    (rouses : ∀ state action, allowed state action → Rouses visits kind state action)
    (run : Run (machine visits data) allowed events monitor) : Attended visits kind monitor := by
  refine (run.invariant (fun _ state => Guarded visits state ∧ Attended visits kind state)
    ⟨guarded_new data, ?_⟩ ?_).2
  · intro thread listed
    cases listed
  · intro events state action emitted after earlier known permitted fired
    have move := step_move fired
    exact ⟨guarded_move known.1 move, attended_move known.1 known.2 (rouses _ _ permitted) move⟩

/-- The places between the change and the unlock. -/
def Place.isPast (kind : Kind) (place : Place Kind) : Prop :=
  place = .notifying kind ∨ place = .leaving kind

theorem past_move {action : Action Thread Kind} {events : List (Event Thread Kind)}
    (move : Move visits monitor action after emitted)
    (past : (monitor.places thread).isPast kind) :
    .unlocked thread kind ∈ events ++ emitted ∨ (after.places thread).isPast kind := by
  have moved : ∀ (other : Monitor Thread Kind Data) (mover : Thread) (place : Place Kind),
      other.places = monitor.places → (mover = thread → place.isPast kind) →
      ((other.goTo mover place).places thread).isPast kind := by
    intro other mover place places mine
    rw [places_goTo, places]
    split
    · next same => exact mine same.symm
    · exact past
  have elsewhere : ∀ {mover : Thread} {place other : Place Kind}, monitor.places mover = other →
      ¬ other.isPast kind → mover = thread → place.isPast kind := by
    intro mover place other at_ never same
    subst same
    rw [at_] at past
    exact absurd past never
  cases move with
  | visit mover other at_ =>
    exact .inr (moved monitor mover _ rfl (elsewhere at_ (by simp [Place.isPast])))
  | lock mover chosen other at_ free awake =>
    exact .inr (moved { monitor with mutex := some mover } mover _ rfl
      (elsewhere at_ (by simp [Place.isPast])))
  | pass mover chosen other at_ met =>
    exact .inr (moved monitor mover _ rfl (elsewhere at_ (by simp [Place.isPast])))
  | sleep mover chosen other at_ unmet =>
    exact .inr (moved { monitor with mutex := none, asleep := mover :: monitor.asleep } mover _ rfl
      (elsewhere at_ (by simp [Place.isPast])))
  | change mover chosen other at_ =>
    exact .inr (moved { monitor with data := (visits other).change monitor.data } mover _ rfl
      (elsewhere at_ (by simp [Place.isPast])))
  | notify mover chosen other asleep at_ left =>
    right
    apply moved { monitor with asleep := asleep } mover _ rfl
    intro same
    subst same
    simp only [Place.isPast, at_] at past
    rcases past with same | other
    · cases same
      exact .inr rfl
    · cases other
  | unlock mover chosen other at_ =>
    by_cases same : mover = thread
    · subst same
      simp only [Place.isPast, at_] at past
      rcases past with other | same
      · cases other
      · cases same
        left
        exact List.mem_append_right _ (List.mem_singleton_self _)
    · right
      exact moved { monitor with mutex := none } mover _ rfl (fun equal => absurd equal same)
  | leave mover chosen other at_ =>
    exact .inr (moved monitor mover _ rfl (elsewhere at_ (by simp [Place.isPast])))
  | rouse other listed => exact .inr past

theorem unlocked_of_run {events : List (Event Thread Kind)}
    (run : Run (machine visits data) allowed events monitor)
    (changed : .changed thread kind ∈ events) :
    .unlocked thread kind ∈ events ∨ (monitor.places thread).isPast kind := by
  refine run.invariant (fun events state => .changed thread kind ∈ events →
    .unlocked thread kind ∈ events ∨ (state.places thread).isPast kind) ?_ ?_ changed
  · intro listed
    cases listed
  · intro events state action emitted after earlier known permitted fired listed
    have move := step_move fired
    rcases List.mem_append.mp listed with old | new
    · rcases known old with unlocked | past
      · exact .inl (List.mem_append_left _ unlocked)
      · exact past_move move past
    · cases move <;> simp only [List.mem_singleton, List.not_mem_nil, reduceCtorEq] at new
      case change mover chosen other changing =>
        cases new
        right
        left
        rw [places_goTo, if_pos rfl]

/-- The visit in which a thread has still to access the monitor. -/
def Place.uses : Place Kind → Option Kind
  | .outside | .returning _ => none
  | .entering kind | .testing kind | .changing kind | .notifying kind | .leaving kind => some kind

theorem uses_goTo (monitor : Monitor Thread Kind Data) (mover thread : Thread)
    (place : Place Kind) (same : place.uses = (monitor.places mover).uses) :
    ((monitor.goTo mover place).places thread).uses = (monitor.places thread).uses := by
  rw [places_goTo]
  split
  · next equal => rw [same, equal]
  · rfl

variable [DecidableEq Kind]

/-- Every visit that was entered has unlocked the mutex or has still to access the monitor. -/
theorem entered_of_run {events : List (Event Thread Kind)}
    (run : Run (machine visits data) allowed events monitor) (thread : Thread) (kind : Kind) :
    events.count (.entered thread kind) = events.count (.unlocked thread kind) +
      if (monitor.places thread).uses = some kind then 1 else 0 := by
  refine run.invariant (fun events state => events.count (.entered thread kind) =
    events.count (.unlocked thread kind) +
      if (state.places thread).uses = some kind then 1 else 0) rfl ?_
  intro events state action emitted after earlier known permitted fired
  have quiet : ∀ (other : Monitor Thread Kind Data) (mover : Thread) (place : Place Kind),
      other.places = state.places → place.uses = (state.places mover).uses →
      ((other.goTo mover place).places thread).uses = (state.places thread).uses := by
    intro other mover place places same
    rw [uses_goTo other mover thread place (by rw [places]; exact same), places]
  rw [List.count_append, List.count_append, known]
  cases step_move fired with
  | visit mover other at_ =>
    rw [places_goTo]
    by_cases same : thread = mover
    · subst same
      simp [at_, Place.uses, List.count_cons, Nat.add_comm]
    · have apart : mover ≠ thread := Ne.symm same
      simp [same, apart]
  | lock mover chosen other at_ free awake =>
    rw [quiet { state with mutex := some mover } mover _ rfl (by rw [at_]; rfl)]
    simp
  | pass mover chosen other at_ met =>
    rw [quiet state mover _ rfl (by rw [at_]; rfl)]
    simp
  | sleep mover chosen other at_ unmet =>
    rw [quiet { state with mutex := none, asleep := mover :: state.asleep } mover _ rfl
      (by rw [at_]; rfl)]
    simp
  | change mover chosen other at_ =>
    rw [quiet { state with data := (visits other).change state.data } mover _ rfl
      (by rw [at_]; rfl)]
    simp
  | notify mover chosen other asleep at_ left =>
    rw [quiet { state with asleep := asleep } mover _ rfl (by rw [at_]; rfl)]
    simp
  | unlock mover chosen other at_ =>
    rw [places_goTo]
    by_cases same : thread = mover
    · subst same
      simp [at_, Place.uses, List.count_cons, Nat.add_comm]
    · have apart : mover ≠ thread := Ne.symm same
      simp [same, apart]
  | leave mover chosen other at_ =>
    rw [quiet state mover _ rfl (by rw [at_]; rfl)]
    simp
  | rouse mover listed => simp

end Steps

section Runs
variable [DecidableEq Thread] {visits : Kind → Visit Data} {monitor : Monitor Thread Kind Data}
  {data : Data} {thread : Thread} {kind : Kind}
  {allowed : Monitor Thread Kind Data → Action Thread Kind → Prop}

theorem step_at (chosen : Thread) {place : Place Kind} (at_ : monitor.places thread = place) :
    (machine visits data).step monitor (.advance thread chosen) =
      monitor.advance visits thread chosen place := by
  rw [← at_]
  rfl

theorem visit_at (at_ : monitor.places thread = .outside) :
    (machine visits data).step monitor (.visit thread kind) =
      some (monitor.goTo thread (.entering kind), [.entered thread kind]) := by
  simp only [machine, Monitor.step, at_]

theorem placed (monitor : Monitor Thread Kind Data) (thread : Thread) (place : Place Kind) :
    (monitor.goTo thread place).places thread = place := by
  rw [places_goTo, if_pos rfl]

theorem passes (chosen : Thread) (at_ : monitor.places thread = .entering kind) (free : monitor.mutex = none)
    (awake : thread ∉ monitor.asleep) (met : (visits kind).test monitor.data = true)
    (permitted : ∀ state : Monitor Thread Kind Data, state.asleep = monitor.asleep →
      allowed state (.advance thread chosen)) :
    Steps (machine visits data) allowed monitor []
      ({ monitor with mutex := some thread }.goTo thread (.changing kind)) := by
  have locked : (machine visits data).step monitor (.advance thread chosen) =
      some ({ monitor with mutex := some thread }.goTo thread (.testing kind), []) := by
    rw [step_at chosen at_, Monitor.advance, if_pos ⟨free, awake⟩]
  have passed : (machine visits data).step
      ({ monitor with mutex := some thread }.goTo thread (.testing kind)) (.advance thread chosen) =
      some ({ monitor with mutex := some thread }.goTo thread (.changing kind), []) := by
    rw [step_at chosen (placed _ _ _), Monitor.advance]
    have still : (visits kind).test
        ({ monitor with mutex := some thread }.goTo thread (.testing kind)).data = true := met
    rw [if_pos still]
    simp [Monitor.goTo]
  exact (Steps.single (permitted _ rfl) locked).trans (.single (permitted _ rfl) passed)

theorem leaves (chosen : Thread) {left : List Thread} (at_ : monitor.places thread = .changing kind)
    (noticed : Monitor.notify monitor.asleep chosen (visits kind).notice = some left)
    (permitted : ∀ state : Monitor Thread Kind Data, state.asleep.length ≤ monitor.asleep.length →
      allowed state (.advance thread chosen)) :
    Steps (machine visits data) allowed monitor
      [.changed thread kind, .unlocked thread kind, .returned thread kind]
      ({ monitor with
        data := (visits kind).change monitor.data
        mutex := none
        asleep := left }.goTo thread .outside) := by
  have changed : (machine visits data).step monitor (.advance thread chosen) =
      some ({ monitor with data := (visits kind).change monitor.data }.goTo thread (.notifying kind),
        [.changed thread kind]) := by
    rw [step_at chosen at_, Monitor.advance]
  have woken : (machine visits data).step
      ({ monitor with data := (visits kind).change monitor.data }.goTo thread (.notifying kind))
      (.advance thread chosen) =
      some ({ monitor with data := (visits kind).change monitor.data, asleep := left }.goTo thread
        (.leaving kind), []) := by
    rw [step_at chosen (placed _ _ _), Monitor.advance]
    change (Monitor.notify monitor.asleep chosen (visits kind).notice).map _ = _
    rw [noticed]
    simp [Monitor.goTo]
  have unlocked : (machine visits data).step
      ({ monitor with data := (visits kind).change monitor.data, asleep := left }.goTo thread
        (.leaving kind)) (.advance thread chosen) =
      some ({ monitor with
        data := (visits kind).change monitor.data
        mutex := none
        asleep := left }.goTo thread (.returning kind), [.unlocked thread kind]) := by
    rw [step_at chosen (placed _ _ _), Monitor.advance]
    simp [Monitor.goTo]
  have returned : (machine visits data).step
      ({ monitor with
        data := (visits kind).change monitor.data
        mutex := none
        asleep := left }.goTo thread (.returning kind)) (.advance thread chosen) =
      some ({ monitor with
        data := (visits kind).change monitor.data
        mutex := none
        asleep := left }.goTo thread .outside, [.returned thread kind]) := by
    rw [step_at chosen (placed _ _ _), Monitor.advance]
    simp [Monitor.goTo]
  have shorter := (notify_sublist noticed).length_le
  have first := Steps.single (permitted monitor (Nat.le_refl _)) changed
  have second := first.trans (.single (permitted _ (Nat.le_refl _)) woken)
  have third := second.trans (.single (permitted _ shorter) unlocked)
  exact third.trans (.single (permitted _ shorter) returned)

end Runs

section Progress
variable [DecidableEq Thread] {visits : Kind → Visit Data} {monitor after : Monitor Thread Kind Data}
  {data : Data} {thread chosen : Thread} {emitted : List (Event Thread Kind)}
  {allowed : Monitor Thread Kind Data → Action Thread Kind → Prop}

def Place.rank : Place Kind → Nat
  | .outside => 0
  | .returning _ => 1
  | .leaving _ => 2
  | .notifying _ => 3
  | .changing _ => 4
  | .testing _ => 5
  | .entering _ => 6

/-- All tests hold and nobody sleeps. -/
structure Passable (visits : Kind → Visit Data) (monitor : Monitor Thread Kind Data) : Prop where
  met : ∀ kind, (visits kind).test monitor.data = true
  awake : monitor.asleep = []

/-- A test that holds is not spoiled by any visit. -/
def Stable (visits : Kind → Visit Data) : Prop :=
  ∀ kind other data, (visits kind).test data = true →
    (visits kind).test ((visits other).change data) = true

theorem Passable.move {action : Action Thread Kind} (passable : Passable visits monitor)
    (stable : Stable visits) (move : Move visits monitor action after emitted) :
    Passable visits after := by
  cases move with
  | visit mover kind at_ => exact ⟨passable.met, passable.awake⟩
  | lock mover chosen kind at_ free awake => exact ⟨passable.met, passable.awake⟩
  | pass mover chosen kind at_ met => exact ⟨passable.met, passable.awake⟩
  | sleep mover chosen kind at_ unmet =>
    exact absurd (passable.met kind) (Bool.eq_false_iff.mp unmet)
  | change mover chosen kind at_ =>
    exact ⟨fun other => stable other kind monitor.data (passable.met other), passable.awake⟩
  | notify mover chosen kind asleep at_ left =>
    have none_listed : asleep.Sublist [] := passable.awake ▸ notify_sublist left
    exact ⟨passable.met, List.sublist_nil.mp none_listed⟩
  | unlock mover chosen kind at_ => exact ⟨passable.met, passable.awake⟩
  | leave mover chosen kind at_ => exact ⟨passable.met, passable.awake⟩
  | rouse mover listed =>
    rw [passable.awake] at listed
    cases listed

/-- The places between the change and the return. -/
def Place.isDone (kind : Kind) (place : Place Kind) : Prop :=
  place.isPast kind ∨ place = .returning kind

/-- The data a step leaves behind, for a thread that is behind its change then: it was there
before, or it makes the change. -/
theorem done_move {action : Action Thread Kind} (move : Move visits monitor action after emitted)
    (past : (after.places thread).isDone kind) :
    (monitor.places thread).isDone kind ∧ (after.data = monitor.data ∨
        ∃ other, after.data = (visits other).change monitor.data) ∨
      monitor.places thread = .changing kind ∧ after.data = (visits kind).change monitor.data := by
  have elsewhere : ∀ (other : Monitor Thread Kind Data) (mover : Thread) (place : Place Kind),
      other.places = monitor.places → ((other.goTo mover place).places thread).isDone kind →
      (place.isDone kind → mover = thread → (monitor.places thread).isDone kind) →
      (monitor.places thread).isDone kind := by
    intro other mover place places standing mine
    rw [places_goTo, places] at standing
    split at standing
    · next same => exact mine standing same.symm
    · exact standing
  cases move with
  | visit mover other at_ =>
    exact .inl ⟨elsewhere monitor mover _ rfl past (by simp [Place.isDone, Place.isPast]), .inl rfl⟩
  | lock mover chosen other at_ free awake =>
    exact .inl ⟨elsewhere { monitor with mutex := some mover } mover _ rfl past
      (by simp [Place.isDone, Place.isPast]), .inl rfl⟩
  | pass mover chosen other at_ met =>
    exact .inl ⟨elsewhere monitor mover _ rfl past (by simp [Place.isDone, Place.isPast]), .inl rfl⟩
  | sleep mover chosen other at_ unmet =>
    exact .inl ⟨elsewhere { monitor with mutex := none, asleep := mover :: monitor.asleep } mover _
      rfl past (by simp [Place.isDone, Place.isPast]), .inl rfl⟩
  | change mover chosen other at_ =>
    rw [places_goTo] at past
    split at past
    · next same =>
      subst same
      rcases past with (equal | equal) | equal
      · cases equal
        exact .inr ⟨at_, rfl⟩
      · cases equal
      · cases equal
    · exact .inl ⟨past, .inr ⟨other, rfl⟩⟩
  | notify mover chosen other asleep at_ left =>
    left
    constructor
    · apply elsewhere { monitor with asleep := asleep } mover _ rfl past
      intro standing same
      subst same
      rcases standing with (same | same) | same
      · cases same
      · cases same
        exact .inl (.inl at_)
      · cases same
    · exact .inl rfl
  | unlock mover chosen other at_ =>
    left
    constructor
    · apply elsewhere { monitor with mutex := none } mover _ rfl past
      intro standing same
      subst same
      rcases standing with (same | same) | same
      · cases same
      · cases same
      · cases same
        exact .inl (.inr at_)
    · exact .inl rfl
  | leave mover chosen other at_ =>
    exact .inl ⟨elsewhere monitor mover _ rfl past (by simp [Place.isDone, Place.isPast]), .inl rfl⟩
  | rouse mover listed => exact .inl ⟨past, .inl rfl⟩

/-- What a change establishes and no other change spoils holds until the visit returns. -/
theorem past_of_run {events : List (Event Thread Kind)} (good : Kind → Data → Prop)
    (done : ∀ kind data, (visits kind).test data = true → good kind ((visits kind).change data))
    (keeps : ∀ kind other data, good kind data → good kind ((visits other).change data))
    (run : Run (machine visits data) allowed events monitor) (thread : Thread) (kind : Kind)
    (past : (monitor.places thread).isDone kind) : good kind monitor.data := by
  refine (run.invariant (fun _ state => Guarded visits state ∧ ((state.places thread).isDone kind →
    good kind state.data)) ⟨guarded_new data, ?_⟩ ?_).2 past
  · intro past
    rcases past with (same | same) | same <;> cases same
  · intro events state action emitted after earlier known permitted fired
    have move := step_move fired
    constructor
    · exact guarded_move known.1 move
    · intro past
      rcases done_move move past with ⟨before, same | ⟨other, same⟩⟩ | ⟨at_, same⟩
      · rw [same]
        exact known.2 before
      · rw [same]
        exact keeps kind other state.data (known.2 before)
      · rw [same]
        exact done kind state.data (known.1.tested thread kind at_)

def Action.advances (thread : Thread) : Action Thread Kind → Bool
  | .advance mover _ => mover = thread
  | _ => false

/-- In a passable monitor a step of a visit brings it nearer to its return, and
the steps of others do not put it back. -/
theorem Passable.nearer {action : Action Thread Kind} (passable : Passable visits monitor)
    (move : Move visits monitor action after emitted)
    (inside : monitor.places thread ≠ .outside) :
    (after.places thread).rank + (if action.advances thread then 1 else 0) =
      (monitor.places thread).rank := by
  have moved : ∀ (other : Monitor Thread Kind Data) (mover chosen : Thread) (place : Place Kind),
      other.places = monitor.places → place.rank + 1 = (monitor.places mover).rank →
      ((other.goTo mover place).places thread).rank +
        (if (Action.advance mover chosen : Action Thread Kind).advances thread then 1 else 0) =
        (monitor.places thread).rank := by
    intro other mover chosen place places less
    rw [places_goTo, places]
    by_cases same : thread = mover
    · subst same
      simp [Action.advances, less]
    · have apart : mover ≠ thread := Ne.symm same
      simp [Action.advances, same, apart]
  cases move with
  | visit mover kind at_ =>
    have different : thread ≠ mover := fun same => inside (same ▸ at_)
    rw [places_goTo, if_neg different]
    rfl
  | lock mover chosen kind at_ free awake =>
    exact moved { monitor with mutex := some mover } mover chosen _ rfl (by rw [at_]; rfl)
  | pass mover chosen kind at_ met => exact moved monitor mover chosen _ rfl (by rw [at_]; rfl)
  | sleep mover chosen kind at_ unmet =>
    exact absurd (passable.met kind) (Bool.eq_false_iff.mp unmet)
  | change mover chosen kind at_ =>
    exact moved { monitor with data := (visits kind).change monitor.data } mover chosen _ rfl
      (by rw [at_]; rfl)
  | notify mover chosen kind asleep at_ left =>
    exact moved { monitor with asleep := asleep } mover chosen _ rfl (by rw [at_]; rfl)
  | unlock mover chosen kind at_ =>
    exact moved { monitor with mutex := none } mover chosen _ rfl (by rw [at_]; rfl)
  | leave mover chosen kind at_ => exact moved monitor mover chosen _ rfl (by rw [at_]; rfl)
  | rouse mover listed => rfl

theorem Passable.advances (passable : Passable visits monitor)
    (holds : (monitor.places thread).holds = true) :
    (monitor.step visits (.advance thread thread)).isSome = true := by
  simp only [Monitor.step]
  cases at_ : monitor.places thread with
  | outside =>
    rw [at_] at holds
    cases holds
  | entering kind =>
    rw [at_] at holds
    cases holds
  | returning kind =>
    rw [at_] at holds
    cases holds
  | testing kind => simp [Monitor.advance, passable.met kind]
  | changing kind => rfl
  | notifying kind =>
    rw [Monitor.advance, passable.awake]
    cases (visits kind).notice <;> rfl
  | leaving kind => rfl

theorem Passable.goes_on (passable : Passable visits monitor) (guarded : Guarded visits monitor)
    (inside : monitor.places thread ≠ .outside) :
    (monitor.step visits (.advance thread thread)).isSome = true ∨
      ∃ owner, monitor.mutex = some owner ∧
        (monitor.step visits (.advance owner owner)).isSome = true := by
  cases at_ : monitor.places thread with
  | outside => exact absurd at_ inside
  | entering kind =>
    cases owned : monitor.mutex with
    | none =>
      left
      simp [Monitor.step, at_, Monitor.advance, owned, passable.awake]
    | some owner =>
      exact .inr ⟨owner, rfl, passable.advances (guarded.inside owner owned)⟩
  | testing kind => exact .inl (passable.advances (by rw [at_]; rfl))
  | changing kind => exact .inl (passable.advances (by rw [at_]; rfl))
  | notifying kind => exact .inl (passable.advances (by rw [at_]; rfl))
  | leaving kind => exact .inl (passable.advances (by rw [at_]; rfl))
  | returning kind =>
    left
    simp only [Monitor.step, at_]
    rfl

end Progress

end Rpcz.Monitors
