import Rpcz.Monitors
import Rpcz.BarredSingleton

/-!
The wait of `start_construction` in manager_dyn_singleton_helper.cc, with the
condition variable. `finish_destruction` notifies one thread, and a thread that
it does not reach sleeps on.
-/

namespace Rpcz.ConstructionWait
open Automaton ManagerSingleton SingletonLife BarredSingleton

variable {Thread : Type}

/-- `asleep` lists the threads in `cond.wait` that nothing has woken. -/
structure Waits (Thread : Type) where
  singleton : DynSingleton Thread
  asleep : List Thread

inductive Action (Thread : Type) where
  /-- `chosen` is the thread `cond.notify_one()` wakes. -/
  | helper (action : ManagerSingleton.Action Thread) (chosen : Thread)
  /-- `cond.wait` ends without a notification. -/
  | rouse (thread : Thread)
deriving DecidableEq

namespace Waits
variable [DecidableEq Thread]

def new : Waits Thread := ⟨.new, []⟩

def cond (state : Waits Thread) (thread chosen : Thread) : Place → Option (List Thread)
  | .testing =>
    if state.singleton.mgrExists then some (thread :: state.asleep) else some state.asleep
  | .waiting => if thread ∈ state.asleep then none else some state.asleep
  | .clearing => Monitors.Monitor.notify state.asleep chosen .one
  | _ => some state.asleep

def sleepers (state : Waits Thread) (chosen : Thread) :
    ManagerSingleton.Action Thread → Option (List Thread)
  | .advance thread => state.cond thread chosen (state.singleton.places thread)
  | _ => some state.asleep

def step (state : Waits Thread) : Action Thread → Option (Waits Thread × List (Event Thread))
  | .helper action chosen =>
    (state.sleepers chosen action).bind fun asleep =>
      (state.singleton.step action).map fun result => (⟨result.1, asleep⟩, result.2)
  | .rouse thread =>
    if thread ∈ state.asleep then some (⟨state.singleton, state.asleep.erase thread⟩, []) else none

end Waits

def machine (Thread : Type) [DecidableEq Thread] :
    Machine (Waits Thread) (Action Thread) (Event Thread) :=
  ⟨.new, Waits.step⟩

/-- `start_construction` and `finish_destruction` visit the monitor of `mgr_exists`. -/
inductive Visit where
  | start
  | finish
deriving DecidableEq

def visits : Visit → Monitors.Visit Bool
  | .start => ⟨fun mgrExists => !mgrExists, fun _ => true, .nobody⟩
  | .finish => ⟨fun _ => true, fun _ => false, .one⟩

def stand : Place → Monitors.Place Visit
  | .starting | .waiting => .entering .start
  | .testing => .testing .start
  | .claiming => .changing .start
  | .finishing => .entering .finish
  | .clearing => .changing .finish
  | _ => .outside

def Waits.monitor (state : Waits Thread) : Monitors.Monitor Thread Visit Bool where
  places thread := stand (state.singleton.places thread)
  data := state.singleton.mgrExists
  mutex := state.singleton.mgrExistsMtx
  asleep := state.asleep

def holdsWptrMtx : Place → Bool
  | .relocking | .starting | .testing | .waiting | .claiming | .allocating | .constructing _
  | .publishing _ | .returning _ true => true
  | _ => false

def inStart : Place → Bool
  | .starting | .testing | .waiting | .claiming => true
  | _ => false

def Disciplined (holds : Place → Bool) (places : Thread → Place) (mutex : Option Thread) : Prop :=
  ∀ thread, holds (places thread) = true ↔ mutex = some thread

/-- What the mutexes and `mgr_wptr` say about the threads. -/
structure Ordered (singleton : DynSingleton Thread) : Prop where
  wptrMtx : Disciplined holdsWptrMtx singleton.places singleton.mgrWptrMtx
  existsMtx : Disciplined holdsExistsMtx singleton.places singleton.mgrExistsMtx
  /-- A manager with a pointer is in `mgr_wptr`, or its constructor's thread will put it there. -/
  published : ∀ owner manager, (owner, manager) ∈ singleton.pointers →
    singleton.mgrWptr = some manager ∨ ∃ thread, singleton.places thread = .publishing manager
  /-- Behind the second `mgr_wptr.lock()` that failed nobody has a pointer. -/
  expired : ∀ thread, inStart (singleton.places thread) = true → singleton.pointers = []

section Steps
variable [DecidableEq Thread] {singleton after : DynSingleton Thread} {phase : Phase Thread}
  {holds : Place → Bool} {places : Thread → Place} {mutex : Option Thread} {thread : Thread}
  {place : Place} {manager : ManagerId} {emitted : List (Event Thread)}

theorem Disciplined.still (disciplined : Disciplined holds places mutex)
    (same : holds place = holds (places thread)) :
    Disciplined holds (Function.update places thread place) mutex := by
  intro other
  rw [Function.update_apply]
  split
  · next equal =>
    rw [same, equal]
    exact disciplined thread
  · exact disciplined other

theorem Disciplined.take (disciplined : Disciplined holds places mutex) (free : mutex = none)
    (inside : holds place = true) :
    Disciplined holds (Function.update places thread place) (some thread) := by
  intro other
  rw [Function.update_apply]
  split
  · next equal => simp [inside, equal]
  · next different =>
    have apart : thread ≠ other := Ne.symm different
    rw [disciplined other, free]
    simp [apart]

theorem Disciplined.give (disciplined : Disciplined holds places mutex)
    (mine : holds (places thread) = true) (outside : holds place = false) :
    Disciplined holds (Function.update places thread place) none := by
  have owned := (disciplined thread).mp mine
  intro other
  rw [Function.update_apply]
  split
  · simp [outside]
  · next different =>
    have apart : thread ≠ other := Ne.symm different
    rw [disciplined other, owned]
    simp [apart]

theorem Ordered.move (ordered : Ordered singleton)
    (placed : after.places = Function.update singleton.places thread place)
    (pointers : after.pointers = singleton.pointers) (wptr : after.mgrWptr = singleton.mgrWptr)
    (wptrMtx : Disciplined holdsWptrMtx after.places after.mgrWptrMtx)
    (existsMtx : Disciplined holdsExistsMtx after.places after.mgrExistsMtx)
    (unpublished : ∀ manager, singleton.places thread ≠ .publishing manager)
    (expired : inStart place = true → singleton.pointers = []) : Ordered after := by
  constructor
  case wptrMtx => exact wptrMtx
  case existsMtx => exact existsMtx
  case published =>
    intro owner manager listed
    rw [pointers] at listed
    rw [wptr]
    rcases ordered.published owner manager listed with known | publishing
    · exact .inl known
    · obtain ⟨other, at_⟩ := publishing
      have different : other ≠ thread := fun same => unpublished manager (same ▸ at_)
      right
      exact ⟨other, by rw [placed, Function.update_of_ne different]; exact at_⟩
  case expired =>
    intro other inside
    rw [pointers]
    rw [placed, Function.update_apply] at inside
    split at inside
    · exact expired inside
    · exact ordered.expired other inside

omit [DecidableEq Thread] in
theorem Ordered.own (ordered : Ordered singleton) {owner : Thread}
    (listed : (owner, manager) ∈ singleton.pointers) (thread : Thread) :
    Ordered (singleton.own thread manager) := by
  constructor
  case wptrMtx => exact ordered.wptrMtx
  case existsMtx => exact ordered.existsMtx
  case published =>
    intro other id known
    rcases List.mem_cons.mp known with same | old
    · cases same
      exact ordered.published owner manager listed
    · exact ordered.published other id old
  case expired =>
    intro other inside
    rw [ordered.expired other inside] at listed
    cases listed

omit [DecidableEq Thread] in
/-- A failed `mgr_wptr.lock()` under `mgr_wptr_mtx` finds no pointer. -/
theorem Ordered.no_pointer (ordered : Ordered singleton)
    (at_ : singleton.places thread = .relocking) (failed : singleton.lock = none) :
    singleton.pointers = [] := by
  apply List.eq_nil_iff_forall_not_mem.mpr
  intro pointer listed
  rcases ordered.published pointer.1 pointer.2 listed with known | publishing
  · have counted : 0 < singleton.useCount pointer.2 := by
      apply List.countP_pos_iff.mpr
      exact ⟨pointer, listed, by simp⟩
    simp only [DynSingleton.lock, known, Option.filter_some, counted, decide_true, if_true] at failed
    cases failed
  · obtain ⟨other, publishing⟩ := publishing
    have mine := (ordered.wptrMtx thread).mp (by rw [at_]; rfl)
    rw [(ordered.wptrMtx other).mp (by rw [publishing]; rfl)] at mine
    cases mine
    rw [at_] at publishing
    cases publishing

theorem Ordered.locks (ordered : Ordered singleton) {slow : Bool}
    (locked : singleton.lock = some manager)
    (unpublished : ∀ manager, singleton.places thread ≠ .publishing manager)
    (wptrMtx : holdsWptrMtx (.returning manager slow) = holdsWptrMtx (singleton.places thread))
    (existsMtx : holdsExistsMtx (singleton.places thread) = false) :
    Ordered ((singleton.own thread manager).goTo thread (.returning manager slow)) := by
  obtain ⟨owner, listed⟩ := lock_pointed locked
  have owned := ordered.own listed thread
  exact owned.move rfl rfl rfl (owned.wptrMtx.still wptrMtx)
    (owned.existsMtx.still existsMtx.symm) unpublished (fun inside => by cases inside)

theorem inStart_holds (place : Place) (inside : inStart place = true) :
    holdsWptrMtx place = true := by
  cases place <;> first | rfl | cases inside

theorem Ordered.constructs (ordered : Ordered singleton)
    (at_ : singleton.places thread = .constructing manager) (empty : singleton.pointers = []) :
    Ordered (((singleton.setLife manager .alive).own thread manager).goTo thread
      (.publishing manager)) := by
  constructor
  case wptrMtx => exact ordered.wptrMtx.still (by rw [at_]; rfl)
  case existsMtx => exact ordered.existsMtx.still (by rw [at_]; rfl)
  case published =>
    intro owner id listed
    rcases List.mem_cons.mp listed with same | old
    · cases same
      right
      exact ⟨thread, by rw [places_goTo, if_pos rfl]⟩
    · change (owner, id) ∈ singleton.pointers at old
      rw [empty] at old
      cases old
  case expired =>
    intro other inside
    rw [places_goTo] at inside
    split at inside
    · cases inside
    · next different =>
      have others : holdsWptrMtx (singleton.places other) = true := inStart_holds _ inside
      have mine := (ordered.wptrMtx thread).mp (by rw [at_]; rfl)
      rw [(ordered.wptrMtx other).mp others] at mine
      exact absurd (Option.some.inj mine) different

theorem Ordered.publishes (ordered : Ordered singleton) (known : Represents singleton phase)
    (at_ : singleton.places thread = .publishing manager) :
    Ordered ({ singleton with mgrWptr := some manager }.goTo thread (.returning manager true)) := by
  have alive := known.claimed thread (.alive manager) (by rw [at_]; rfl)
  constructor
  case wptrMtx => exact ordered.wptrMtx.still (by rw [at_]; rfl)
  case existsMtx => exact ordered.existsMtx.still (by rw [at_]; rfl)
  case published =>
    intro owner id listed
    have same := known.pointed owner id listed
    rw [alive] at same
    cases same
    exact .inl rfl
  case expired =>
    intro other inside
    rw [places_goTo] at inside
    split at inside
    · cases inside
    · exact ordered.expired other inside

theorem ordered_advance (ordered : Ordered singleton) (known : Represents singleton phase)
    (fired : singleton.advance thread (singleton.places thread) = some (after, emitted)) :
    Ordered after := by
  cases at_ : singleton.places thread with
  | outside =>
    rw [at_] at fired
    cases fired
  | probing =>
    rw [at_] at fired
    simp only [DynSingleton.advance] at fired
    split at fired
    · next manager locked =>
      cases fired
      exact ordered.locks locked (by simp [at_]) (by rw [at_]; rfl) (by rw [at_]; rfl)
    · cases fired
      exact ordered.move rfl rfl rfl (ordered.wptrMtx.still (by rw [at_]; rfl))
        (ordered.existsMtx.still (by rw [at_]; rfl)) (by simp [at_]) (fun inside => by cases inside)
  | entering =>
    rw [at_] at fired
    simp only [DynSingleton.advance] at fired
    split at fired
    · next free =>
      cases fired
      exact ordered.move rfl rfl rfl (ordered.wptrMtx.take free rfl)
        (ordered.existsMtx.still (by rw [at_]; rfl)) (by simp [at_]) (fun inside => by cases inside)
    · cases fired
  | relocking =>
    rw [at_] at fired
    simp only [DynSingleton.advance] at fired
    split at fired
    · next manager locked =>
      cases fired
      exact ordered.locks locked (by simp [at_]) (by rw [at_]; rfl) (by rw [at_]; rfl)
    · next failed =>
      cases fired
      exact ordered.move rfl rfl rfl (ordered.wptrMtx.still (by rw [at_]; rfl))
        (ordered.existsMtx.still (by rw [at_]; rfl)) (by simp [at_])
        (fun _ => ordered.no_pointer at_ failed)
  | starting =>
    have expired := ordered.expired thread (by rw [at_]; rfl)
    rw [at_] at fired
    simp only [DynSingleton.advance] at fired
    split at fired
    · next free =>
      cases fired
      exact ordered.move rfl rfl rfl (ordered.wptrMtx.still (by rw [at_]; rfl))
        (ordered.existsMtx.take free rfl) (by simp [at_]) (fun _ => expired)
    · cases fired
  | testing =>
    have expired := ordered.expired thread (by rw [at_]; rfl)
    rw [at_] at fired
    simp only [DynSingleton.advance] at fired
    split at fired
    · cases fired
      exact ordered.move rfl rfl rfl (ordered.wptrMtx.still (by rw [at_]; rfl))
        (ordered.existsMtx.give (by rw [at_]; rfl) rfl) (by simp [at_]) (fun _ => expired)
    · cases fired
      exact ordered.move rfl rfl rfl (ordered.wptrMtx.still (by rw [at_]; rfl))
        (ordered.existsMtx.still (by rw [at_]; rfl)) (by simp [at_]) (fun _ => expired)
  | waiting =>
    have expired := ordered.expired thread (by rw [at_]; rfl)
    rw [at_] at fired
    cases fired
    exact ordered.move rfl rfl rfl (ordered.wptrMtx.still (by rw [at_]; rfl))
      (ordered.existsMtx.still (by rw [at_]; rfl)) (by simp [at_]) (fun _ => expired)
  | claiming =>
    rw [at_] at fired
    cases fired
    exact ordered.move rfl rfl rfl (ordered.wptrMtx.still (by rw [at_]; rfl))
      (ordered.existsMtx.give (by rw [at_]; rfl) rfl) (by simp [at_]) (fun inside => by cases inside)
  | allocating =>
    rw [at_] at fired
    cases fired
    exact ordered.move rfl rfl rfl (ordered.wptrMtx.still (by rw [at_]; rfl))
      (ordered.existsMtx.still (by rw [at_]; rfl)) (by simp [at_]) (fun inside => by cases inside)
  | constructing manager =>
    have building := known.claimed thread (.building thread (some manager)) (by rw [at_]; rfl)
    have empty := known.no_pointers (fun manager alive => by rw [building] at alive; cases alive)
    rw [at_] at fired
    cases fired
    exact ordered.constructs at_ empty
  | publishing manager =>
    rw [at_] at fired
    cases fired
    exact ordered.publishes known at_
  | returning manager slow =>
    rw [at_] at fired
    cases fired
    have wptrMtx : Disciplined holdsWptrMtx (Function.update singleton.places thread .outside)
        (if slow then none else singleton.mgrWptrMtx) := by
      cases slow with
      | false => exact ordered.wptrMtx.still (by rw [at_]; rfl)
      | true => exact ordered.wptrMtx.give (by rw [at_]; rfl) rfl
    exact ordered.move rfl rfl rfl wptrMtx (ordered.existsMtx.still (by rw [at_]; rfl))
      (by simp [at_]) (fun inside => by cases inside)
  | destroying manager =>
    rw [at_] at fired
    cases fired
    exact ordered.move rfl rfl rfl (ordered.wptrMtx.still (by rw [at_]; rfl))
      (ordered.existsMtx.still (by rw [at_]; rfl)) (by simp [at_]) (fun inside => by cases inside)
  | finishing =>
    rw [at_] at fired
    simp only [DynSingleton.advance] at fired
    split at fired
    · next free =>
      cases fired
      exact ordered.move rfl rfl rfl (ordered.wptrMtx.still (by rw [at_]; rfl))
        (ordered.existsMtx.take free rfl) (by simp [at_]) (fun inside => by cases inside)
    · cases fired
  | clearing =>
    rw [at_] at fired
    cases fired
    exact ordered.move rfl rfl rfl (ordered.wptrMtx.still (by rw [at_]; rfl))
      (ordered.existsMtx.give (by rw [at_]; rfl) rfl) (by simp [at_]) (fun inside => by cases inside)

theorem Ordered.releases (ordered : Ordered singleton) (outside : singleton.places thread = .outside) :
    Ordered (singleton.release thread manager).1 := by
  have fewer : ∀ pointer, pointer ∈ singleton.pointers.erase (thread, manager) →
      pointer ∈ singleton.pointers := fun pointer => List.mem_of_mem_erase
  have rest : Ordered { singleton with pointers := singleton.pointers.erase (thread, manager) } := by
    constructor
    case wptrMtx => exact ordered.wptrMtx
    case existsMtx => exact ordered.existsMtx
    case published =>
      intro owner id listed
      exact ordered.published owner id (fewer _ listed)
    case expired =>
      intro other inside
      apply List.eq_nil_iff_forall_not_mem.mpr
      intro pointer listed
      have old := fewer pointer listed
      rw [ordered.expired other inside] at old
      cases old
  simp only [DynSingleton.release]
  split
  · exact rest.move rfl rfl rfl (rest.wptrMtx.still (by rw [outside]; rfl))
      (rest.existsMtx.still (by rw [outside]; rfl)) (by simp [outside]) (fun inside => by cases inside)
  · exact rest

theorem ordered_step {action : ManagerSingleton.Action Thread} (ordered : Ordered singleton)
    (known : Represents singleton phase)
    (fired : singleton.step action = some (after, emitted)) : Ordered after := by
  cases action with
  | get thread =>
    simp only [DynSingleton.step] at fired
    split at fired
    · next outside =>
      cases fired
      exact ordered.move rfl rfl rfl (ordered.wptrMtx.still (by rw [outside]; rfl))
        (ordered.existsMtx.still (by rw [outside]; rfl)) (by simp [outside])
        (fun inside => by cases inside)
    · cases fired
  | copy owner receiver manager =>
    simp only [DynSingleton.step] at fired
    split at fired
    · next listed =>
      cases fired
      exact ordered.own listed receiver
    · cases fired
  | release thread manager =>
    simp only [DynSingleton.step] at fired
    split at fired
    · next able =>
      have same := Option.some.inj fired
      have released : Ordered (singleton.release thread manager).1 := ordered.releases able.1
      rw [same] at released
      exact released
    · cases fired
  | advance thread => exact ordered_advance ordered known fired

omit [DecidableEq Thread] in
theorem ordered_new : Ordered (DynSingleton.new : DynSingleton Thread) := by
  constructor
  case wptrMtx => simp [Disciplined, DynSingleton.new, holdsWptrMtx]
  case existsMtx => simp [Disciplined, DynSingleton.new, holdsExistsMtx]
  case published => simp [DynSingleton.new]
  case expired => simp [DynSingleton.new]

end Steps

section Simulation
variable [DecidableEq Thread] {state after : Waits Thread} {thread chosen : Thread}
  {events emitted : List (Event Thread)}

omit [DecidableEq Thread] in
theorem rouses {monitor : Monitors.Monitor Thread Visit Bool}
    {action : Monitors.Action Thread Visit} (short : monitor.asleep.length ≤ 1) :
    Monitors.Rouses visits .start monitor action := by
  intro other enables
  obtain ⟨data, unmet, met⟩ := enables
  cases other with
  | start => cases met
  | finish => exact .inr ⟨rfl, fun _ _ _ _ => short⟩

theorem monitor_goTo (singleton : DynSingleton Thread) (asleep : List Thread) (thread : Thread)
    (place : Place) :
    (⟨singleton.goTo thread place, asleep⟩ : Waits Thread).monitor =
      (⟨singleton, asleep⟩ : Waits Thread).monitor.goTo thread (stand place) := by
  have places : (fun other => stand (Function.update singleton.places thread place other)) =
      Function.update (fun other => stand (singleton.places other)) thread (stand place) := by
    funext other
    rw [Function.update_apply, Function.update_apply]
    split <;> rfl
  simp only [Waits.monitor, DynSingleton.goTo, Monitors.Monitor.goTo, places]

theorem monitor_still (singleton : DynSingleton Thread) (asleep : List Thread) {place : Place}
    (same : stand place = stand (singleton.places thread)) :
    (⟨singleton.goTo thread place, asleep⟩ : Waits Thread).monitor =
      (⟨singleton, asleep⟩ : Waits Thread).monitor := by
  rw [monitor_goTo, same]
  have unmoved : Function.update (fun other => stand (singleton.places other)) thread
      (stand (singleton.places thread)) = fun other => stand (singleton.places other) :=
    Function.update_eq_self thread (fun other => stand (singleton.places other))
  simp only [Waits.monitor, Monitors.Monitor.goTo, unmoved]

omit [DecidableEq Thread] in
theorem stands {singleton : DynSingleton Thread} {asleep : List Thread} {place : Place}
    (at_ : singleton.places thread = place) :
    (⟨singleton, asleep⟩ : Waits Thread).monitor.places thread = stand place :=
  congrArg stand at_

def Simulated (state after : Waits Thread) : Prop :=
  ∃ events, Steps (Monitors.machine visits false) (Monitors.Rouses visits .start) state.monitor
    events after.monitor

theorem Simulated.unmoved (same : after.monitor = state.monitor) : Simulated state after :=
  ⟨[], same ▸ .refl⟩

theorem Simulated.step {action : Monitors.Action Thread Visit}
    {emitted : List (Monitors.Event Thread Visit)} (short : state.asleep.length ≤ 1)
    (fired : (Monitors.machine visits false).step state.monitor action =
      some (after.monitor, emitted)) : Simulated state after :=
  ⟨emitted, .single (rouses short) fired⟩

theorem advanced {emitted : List (Monitors.Event Thread Visit)} (short : state.asleep.length ≤ 1)
    (fired : (Monitors.machine visits false).step state.monitor (.advance thread thread) =
      some (after.monitor, emitted)) : Simulated state after :=
  .step short fired

theorem simulated_advance {singleton next : DynSingleton Thread} {asleep left : List Thread}
    (short : asleep.length ≤ 1)
    (waiting : ∀ sleeper, sleeper ∈ asleep → singleton.places sleeper = .waiting)
    (woken : (⟨singleton, asleep⟩ : Waits Thread).cond thread chosen (singleton.places thread) =
      some left)
    (fired : singleton.advance thread (singleton.places thread) = some (next, emitted)) :
    Simulated ⟨singleton, asleep⟩ ⟨next, left⟩ := by
  cases at_ : singleton.places thread with
  | outside =>
    rw [at_] at fired
    cases fired
  | probing =>
    rw [at_] at fired woken
    cases woken
    simp only [DynSingleton.advance] at fired
    split at fired <;> cases fired
    · exact .unmoved (monitor_still _ _ (congrArg stand at_).symm)
    · exact .unmoved (monitor_still _ _ (congrArg stand at_).symm)
  | entering =>
    rw [at_] at fired woken
    cases woken
    simp only [DynSingleton.advance] at fired
    split at fired <;> cases fired
    exact .unmoved (monitor_still _ _ (congrArg stand at_).symm)
  | relocking =>
    rw [at_] at fired woken
    cases woken
    simp only [DynSingleton.advance] at fired
    split at fired <;> cases fired
    · exact .unmoved (monitor_still _ _ (congrArg stand at_).symm)
    · apply Simulated.step short
      rw [monitor_goTo]
      exact Monitors.visit_at (stands at_)
  | starting =>
    have awake : thread ∉ asleep := by
      intro listed
      rw [waiting thread listed] at at_
      cases at_
    rw [at_] at fired woken
    cases woken
    simp only [DynSingleton.advance] at fired
    split at fired <;> cases fired
    next free =>
    apply advanced short
    rw [Monitors.step_at thread (stands at_), stand, Monitors.Monitor.advance,
      if_pos ⟨free, awake⟩, monitor_goTo]
    rfl
  | testing =>
    rw [at_] at fired woken
    simp only [DynSingleton.advance] at fired
    simp only [Waits.cond] at woken
    cases standing : singleton.mgrExists with
    | true =>
      rw [if_pos standing] at fired woken
      cases fired
      cases woken
      apply advanced short
      rw [Monitors.step_at thread (stands at_), stand, Monitors.Monitor.advance, monitor_goTo]
      have unmet : (visits .start).test (⟨singleton, asleep⟩ : Waits Thread).monitor.data ≠ true := by
        simp [visits, Waits.monitor, standing]
      rw [if_neg unmet]
      rfl
    | false =>
      rw [if_neg (Bool.eq_false_iff.mp standing)] at fired woken
      cases fired
      cases woken
      apply advanced short
      rw [Monitors.step_at thread (stands at_), stand, Monitors.Monitor.advance, monitor_goTo]
      have met : (visits .start).test (⟨singleton, asleep⟩ : Waits Thread).monitor.data = true := by
        simp [visits, Waits.monitor, standing]
      rw [if_pos met]
      rfl
  | waiting =>
    rw [at_] at fired woken
    cases fired
    simp only [Waits.cond] at woken
    split at woken <;> cases woken
    exact .unmoved (monitor_still _ _ (congrArg stand at_).symm)
  | claiming =>
    rw [at_] at fired woken
    cases fired
    cases woken
    refine ⟨[.changed thread .start, .unlocked thread .start, .returned thread .start], ?_⟩
    rw [monitor_goTo]
    exact Monitors.leaves thread (stands at_) rfl
      (fun state shorter => rouses (Nat.le_trans shorter short))
  | allocating =>
    rw [at_] at fired woken
    cases fired
    cases woken
    exact .unmoved (monitor_still _ _ (congrArg stand at_).symm)
  | constructing manager =>
    rw [at_] at fired woken
    cases fired
    cases woken
    exact .unmoved (monitor_still _ _ (congrArg stand at_).symm)
  | publishing manager =>
    rw [at_] at fired woken
    cases fired
    cases woken
    exact .unmoved (monitor_still _ _ (congrArg stand at_).symm)
  | returning manager slow =>
    rw [at_] at fired woken
    cases fired
    cases woken
    exact .unmoved (monitor_still _ _ (congrArg stand at_).symm)
  | destroying manager =>
    rw [at_] at fired woken
    cases fired
    cases woken
    apply Simulated.step short
    rw [monitor_goTo]
    exact Monitors.visit_at (stands at_)
  | finishing =>
    have awake : thread ∉ asleep := by
      intro listed
      rw [waiting thread listed] at at_
      cases at_
    rw [at_] at fired woken
    cases woken
    simp only [DynSingleton.advance] at fired
    split at fired <;> cases fired
    next free =>
    refine ⟨[], ?_⟩
    rw [monitor_goTo]
    exact Monitors.passes thread (stands at_) free awake rfl (fun state same => rouses (same ▸ short))
  | clearing =>
    rw [at_] at fired woken
    cases fired
    refine ⟨[.changed thread .finish, .unlocked thread .finish, .returned thread .finish], ?_⟩
    rw [monitor_goTo]
    exact Monitors.leaves chosen (stands at_) woken
      (fun state shorter => rouses (Nat.le_trans shorter short))

theorem advance_places {singleton next : DynSingleton Thread}
    (fired : singleton.advance thread (singleton.places thread) = some (next, emitted)) (other : Thread)
    (different : other ≠ thread) : next.places other = singleton.places other := by
  have moved : ∀ (origin : DynSingleton Thread) (place : Place), origin.places = singleton.places →
      (origin.goTo thread place).places other = singleton.places other := by
    intro origin place same
    rw [places_goTo, if_neg different, same]
  cases at_ : singleton.places thread with
  | outside =>
    rw [at_] at fired
    cases fired
  | probing | relocking | testing =>
    rw [at_] at fired
    simp only [DynSingleton.advance] at fired
    split at fired <;> cases fired <;> exact moved _ _ rfl
  | entering | starting | finishing =>
    rw [at_] at fired
    simp only [DynSingleton.advance] at fired
    split at fired <;> cases fired
    exact moved _ _ rfl
  | _ =>
    rw [at_] at fired
    cases fired
    exact moved _ _ rfl

theorem cond_sleeper {singleton : DynSingleton Thread} {asleep left : List Thread} {place : Place}
    {sleeper : Thread} (woken : (⟨singleton, asleep⟩ : Waits Thread).cond thread chosen place = some left)
    (listed : sleeper ∈ left) :
    (sleeper ∈ asleep ∧ (sleeper = thread → place ≠ .waiting)) ∨
      sleeper = thread ∧ place = .testing ∧ singleton.mgrExists = true := by
  cases place with
  | testing =>
    simp only [Waits.cond] at woken
    split at woken <;> cases woken
    · next standing =>
      rcases List.mem_cons.mp listed with same | old
      · exact .inr ⟨same, rfl, standing⟩
      · exact .inl ⟨old, fun _ => by simp⟩
    · exact .inl ⟨listed, fun _ => by simp⟩
  | waiting =>
    simp only [Waits.cond] at woken
    split at woken <;> cases woken
    next awake =>
    exact .inl ⟨listed, fun same => absurd (same ▸ listed) awake⟩
  | clearing =>
    change Monitors.Monitor.notify asleep chosen .one = some left at woken
    exact .inl ⟨(Monitors.notify_sublist woken).subset listed, fun _ => by simp⟩
  | _ =>
    cases woken
    exact .inl ⟨listed, fun _ => by simp⟩

structure Sound (state : Waits Thread) : Prop where
  represents : ∃ phase, Represents state.singleton phase
  locked : Locked state.singleton
  ordered : Ordered state.singleton
  waiting : ∀ sleeper, sleeper ∈ state.asleep → state.singleton.places sleeper = .waiting
  monitor : ∃ events, Run (Monitors.machine visits false) (Monitors.Rouses visits .start) events
    state.monitor

theorem Sound.alone (sound : Sound state) {first second : Thread} (one : first ∈ state.asleep)
    (two : second ∈ state.asleep) : first = second := by
  have mine := (sound.ordered.wptrMtx first).mp (by rw [sound.waiting first one]; rfl)
  rw [(sound.ordered.wptrMtx second).mp (by rw [sound.waiting second two]; rfl)] at mine
  exact (Option.some.inj mine).symm

theorem Sound.short (sound : Sound state) : state.asleep.length ≤ 1 := by
  obtain ⟨events, run⟩ := sound.monitor
  have distinct : state.asleep.Nodup := (Monitors.guarded_of_run run).distinct
  cases sleepers : state.asleep with
  | nil => exact Nat.zero_le _
  | cons first rest =>
    cases rest with
    | nil => exact Nat.le_refl _
    | cons second more =>
      have same : first = second := sound.alone (by simp [sleepers]) (by simp [sleepers])
      rw [sleepers, same] at distinct
      simp at distinct

theorem waiting_advance {singleton next : DynSingleton Thread} {asleep left : List Thread}
    (waiting : ∀ sleeper, sleeper ∈ asleep → singleton.places sleeper = .waiting)
    (woken : (⟨singleton, asleep⟩ : Waits Thread).cond thread chosen (singleton.places thread) =
      some left)
    (fired : singleton.advance thread (singleton.places thread) = some (next, emitted))
    (sleeper : Thread) (listed : sleeper ∈ left) : next.places sleeper = .waiting := by
  rcases cond_sleeper woken listed with ⟨old, apart⟩ | ⟨same, at_, standing⟩
  · have different : sleeper ≠ thread := by
      intro same
      have here := waiting sleeper old
      rw [same] at here
      exact apart same here
    rw [advance_places fired sleeper different]
    exact waiting sleeper old
  · rw [at_, DynSingleton.advance, if_pos standing] at fired
    cases fired
    rw [same, places_goTo, if_pos rfl]

theorem simulated_call {singleton next : DynSingleton Thread} {asleep left : List Thread}
    {action : ManagerSingleton.Action Thread}
    (fired : singleton.step action = some (next, emitted))
    (waiting : ∀ sleeper, sleeper ∈ asleep → singleton.places sleeper = .waiting)
    (called : ∀ thread, action ≠ .advance thread) (same : asleep = left) :
    Simulated ⟨singleton, asleep⟩ ⟨next, left⟩ ∧
      ∀ sleeper, sleeper ∈ left → next.places sleeper = .waiting := by
  subst same
  have moved : ∀ (origin : DynSingleton Thread) (thread : Thread) (place : Place),
      origin.places = singleton.places → singleton.places thread = .outside →
      ∀ sleeper, sleeper ∈ asleep → (origin.goTo thread place).places sleeper = .waiting := by
    intro origin thread place same outside sleeper listed
    have here := waiting sleeper listed
    have different : sleeper ≠ thread := by
      intro equal
      rw [equal, outside] at here
      cases here
    rw [places_goTo, if_neg different, same]
    exact here
  cases action with
  | get thread =>
    simp only [DynSingleton.step] at fired
    split at fired <;> cases fired
    next outside =>
    constructor
    · exact .unmoved (monitor_still _ _ (congrArg stand outside).symm)
    · exact moved singleton thread .probing rfl outside
  | copy owner receiver manager =>
    simp only [DynSingleton.step] at fired
    split at fired <;> cases fired
    exact ⟨.unmoved rfl, waiting⟩
  | release thread manager =>
    simp only [DynSingleton.step] at fired
    split at fired
    · next able =>
      simp only [DynSingleton.release] at fired
      split at fired <;> cases fired
      · constructor
        · exact .unmoved (monitor_still _ _ (congrArg stand able.1).symm)
        · exact moved _ thread (.destroying manager) rfl able.1
      · exact ⟨.unmoved rfl, waiting⟩
    · cases fired
  | advance thread => exact absurd rfl (called thread)

theorem helper_step {action : ManagerSingleton.Action Thread}
    (fired : state.step (.helper action chosen) = some (after, emitted)) :
    state.sleepers chosen action = some after.asleep ∧
      state.singleton.step action = some (after.singleton, emitted) := by
  obtain ⟨asleep, woken, rest⟩ := Option.bind_eq_some_iff.mp fired
  obtain ⟨result, done, same⟩ := Option.map_eq_some_iff.mp rest
  cases same
  exact ⟨woken, done⟩

theorem Sound.move {action : ManagerSingleton.Action Thread} (sound : Sound state)
    (fired : state.step (.helper action chosen) = some (after, emitted)) :
    Simulated state after ∧
      ∀ sleeper, sleeper ∈ after.asleep → after.singleton.places sleeper = .waiting := by
  obtain ⟨woken, done⟩ := helper_step fired
  cases action with
  | advance thread =>
    change state.cond thread chosen (state.singleton.places thread) = some after.asleep at woken
    change state.singleton.advance thread (state.singleton.places thread) = _ at done
    exact ⟨simulated_advance sound.short sound.waiting woken done,
      waiting_advance sound.waiting woken done⟩
  | get thread =>
    exact simulated_call done sound.waiting (by simp) (Option.some.inj woken)
  | copy owner receiver manager =>
    exact simulated_call done sound.waiting (by simp) (Option.some.inj woken)
  | release thread manager =>
    exact simulated_call done sound.waiting (by simp) (Option.some.inj woken)

theorem sound_step {action : Action Thread} (sound : Sound state)
    (fired : state.step action = some (after, emitted)) : Sound after := by
  obtain ⟨history, run⟩ := sound.monitor
  cases action with
  | helper action chosen =>
    obtain ⟨moved, waiting⟩ := sound.move fired
    obtain ⟨later, steps⟩ := moved
    obtain ⟨phase, known⟩ := sound.represents
    have done := (helper_step fired).2
    obtain ⟨next, kept⟩ := kept_step known sound.locked done
    constructor
    case represents => exact ⟨next, kept.represents⟩
    case locked => exact kept.locked
    case ordered => exact ordered_step sound.ordered known done
    case waiting => exact waiting
    case monitor => exact ⟨history ++ later, Steps.trans run steps⟩
  | rouse thread =>
    simp only [Waits.step] at fired
    split at fired <;> cases fired
    next listed =>
    constructor
    case represents => exact sound.represents
    case locked => exact sound.locked
    case ordered => exact sound.ordered
    case waiting =>
      intro sleeper left
      exact sound.waiting sleeper (List.mem_of_mem_erase left)
    case monitor =>
      have woken : (Monitors.machine visits false).step state.monitor (.rouse thread) =
          some ({ state.monitor with asleep := state.asleep.erase thread }, []) :=
        if_pos listed
      exact ⟨history ++ [], run.next (rouses sound.short) woken⟩

theorem sound_of_run (run : Run (machine Thread) anyStep events state) : Sound state := by
  refine run.invariant (fun _ state => Sound state) ?_ ?_
  · constructor
    case represents => exact ⟨.vacant, represents_new⟩
    case locked =>
      intro thread holds
      cases holds
    case ordered => exact ordered_new
    case waiting =>
      intro sleeper listed
      cases listed
    case monitor => exact ⟨[], .refl⟩
  · intro events state action emitted after earlier sound permitted fired
    exact sound_step sound fired

/-- The rest of the deleter, from `delete p` on. -/
def tearsDown : Place → Bool
  | .destroying _ | .finishing | .clearing => true
  | _ => false

/-- The notification of `finish_destruction` is not lost. -/
theorem Sound.exists_of_asleep (sound : Sound state) (listed : thread ∈ state.asleep) :
    state.singleton.mgrExists = true := by
  obtain ⟨events, run⟩ := sound.monitor
  have attended := Monitors.attended_of_run (fun _ _ permitted => permitted) run
  cases standing : state.singleton.mgrExists with
  | true => rfl
  | false =>
    have at_ : state.monitor.places thread = .entering .start :=
      congrArg stand (sound.waiting thread listed)
    have met : (visits .start).test state.monitor.data = true := by
      simp [visits, Waits.monitor, standing]
    obtain ⟨other, waker, notifying, -⟩ := attended thread listed at_ met
    -- the helper notifies and unlocks in one step
    change stand (state.singleton.places waker) = .notifying other at notifying
    cases here : state.singleton.places waker <;> rw [here] at notifying <;> cases notifying

theorem Sound.torn_down (sound : Sound state) (listed : thread ∈ state.asleep) :
    ∃ other, other ≠ thread ∧ tearsDown (state.singleton.places other) = true := by
  obtain ⟨phase, known⟩ := sound.represents
  have here := sound.waiting thread listed
  have standing := sound.exists_of_asleep listed
  have empty := sound.ordered.expired thread (by rw [here]; rfl)
  rw [known.exists_eq] at standing
  cases phase with
  | vacant => cases standing
  | alive manager =>
    obtain ⟨owner, pointer⟩ := known.owned manager rfl
    rw [empty] at pointer
    cases pointer
  | building builder manager =>
    have claimed := known.active builder rfl
    have inside : holdsWptrMtx (state.singleton.places builder) = true := by
      cases at_ : state.singleton.places builder <;> rw [at_] at claimed <;>
        first | rfl | cases claimed
    have mine := (sound.ordered.wptrMtx builder).mp inside
    rw [(sound.ordered.wptrMtx thread).mp (by rw [here]; rfl)] at mine
    cases mine
    rw [here] at claimed
    cases claimed
  | tearing agent manager =>
    have claimed := known.active agent rfl
    have down : tearsDown (state.singleton.places agent) = true := by
      cases at_ : state.singleton.places agent <;> rw [at_] at claimed <;>
        first | rfl | cases claimed
    refine ⟨agent, ?_, down⟩
    intro same
    rw [same, here] at down
    cases down

/-- In the constructor or the destructor of the manager, which may wait for other threads. -/
def inManager : Place → Bool
  | .constructing _ | .destroying _ => true
  | _ => false

def Able (state : Waits Thread) (thread : Thread) : Prop :=
  inManager (state.singleton.places thread) = false ∧
    ∃ chosen, (state.step (.helper (.advance thread) chosen)).isSome = true

/-- The thread goes on when the manager's constructor or destructor, if it is in one, returns. -/
def GoesOn (state : Waits Thread) (thread : Thread) : Prop :=
  inManager (state.singleton.places thread) = true ∨ Able state thread

theorem goesOn_of (place : Place) (at_ : state.singleton.places thread = place)
    (woken : ∃ chosen, (state.cond thread chosen place).isSome = true)
    (moves : (state.singleton.advance thread place).isSome = true) : GoesOn state thread := by
  obtain ⟨chosen, woken⟩ := woken
  unfold GoesOn Able
  rw [at_]
  cases manager : inManager place with
  | true => exact .inl rfl
  | false =>
    refine .inr ⟨rfl, chosen, ?_⟩
    obtain ⟨asleep, noticed⟩ := Option.isSome_iff_exists.mp woken
    obtain ⟨result, done⟩ := Option.isSome_iff_exists.mp moves
    simp only [Waits.step, Waits.sleepers, DynSingleton.step, at_, noticed, done, Option.bind_some,
      Option.map_some, Option.isSome_some]

theorem notifies (asleep : List Thread) (thread : Thread) :
    ∃ chosen, (Monitors.Monitor.notify asleep chosen .one).isSome = true := by
  cases asleep with
  | nil => exact ⟨thread, rfl⟩
  | cons first rest =>
    refine ⟨first, ?_⟩
    rw [Monitors.Monitor.notify, if_pos (.inr List.mem_cons_self)]
    rfl

theorem goesOn_of_exists (holds : holdsExistsMtx (state.singleton.places thread) = true) :
    GoesOn state thread := by
  cases at_ : state.singleton.places thread with
  | testing =>
    apply goesOn_of .testing at_
    · refine ⟨thread, ?_⟩
      rw [Waits.cond]
      split <;> rfl
    · rw [DynSingleton.advance]
      split <;> rfl
  | claiming => exact goesOn_of .claiming at_ ⟨thread, rfl⟩ rfl
  | clearing => exact goesOn_of .clearing at_ (notifies state.asleep thread) rfl
  | _ =>
    rw [at_] at holds
    cases holds

/-- A thread in front of `mgr_exists_mtx` goes on, or the owner does. -/
theorem Sound.goesOn_at_lock (sound : Sound state) {place : Place}
    (at_ : state.singleton.places thread = place) (front : place = .starting ∨ place = .finishing) :
    ∃ other, GoesOn state other := by
  cases owned : state.singleton.mgrExistsMtx with
  | none =>
    refine ⟨thread, goesOn_of place at_ ⟨thread, ?_⟩ ?_⟩
    · rcases front with same | same <;> subst same <;> rfl
    · rcases front with same | same <;> subst same <;> simp [DynSingleton.advance, owned]
  | some owner =>
    exact ⟨owner, goesOn_of_exists ((sound.ordered.existsMtx owner).mpr owned)⟩

theorem Sound.goesOn_inside (sound : Sound state)
    (holds : holdsWptrMtx (state.singleton.places thread) = true) : ∃ other, GoesOn state other := by
  cases at_ : state.singleton.places thread with
  | relocking =>
    refine ⟨thread, goesOn_of .relocking at_ ⟨thread, rfl⟩ ?_⟩
    rw [DynSingleton.advance]
    split <;> rfl
  | starting => exact sound.goesOn_at_lock at_ (.inl rfl)
  | testing => exact ⟨thread, goesOn_of_exists (by rw [at_]; rfl)⟩
  | waiting =>
    by_cases listed : thread ∈ state.asleep
    · obtain ⟨other, -, down⟩ := sound.torn_down listed
      cases here : state.singleton.places other with
      | destroying manager => exact ⟨other, goesOn_of _ here ⟨other, rfl⟩ rfl⟩
      | finishing => exact sound.goesOn_at_lock here (.inr rfl)
      | clearing => exact ⟨other, goesOn_of_exists (by rw [here]; rfl)⟩
      | _ =>
        rw [here] at down
        cases down
    · refine ⟨thread, goesOn_of .waiting at_ ⟨thread, ?_⟩ rfl⟩
      rw [Waits.cond, if_neg listed]
      rfl
  | claiming => exact ⟨thread, goesOn_of_exists (by rw [at_]; rfl)⟩
  | allocating => exact ⟨thread, goesOn_of _ at_ ⟨thread, rfl⟩ rfl⟩
  | constructing manager => exact ⟨thread, goesOn_of _ at_ ⟨thread, rfl⟩ rfl⟩
  | publishing manager => exact ⟨thread, goesOn_of _ at_ ⟨thread, rfl⟩ rfl⟩
  | returning manager slow => exact ⟨thread, goesOn_of _ at_ ⟨thread, rfl⟩ rfl⟩
  | _ =>
    rw [at_] at holds
    cases holds

theorem Sound.goes_on (sound : Sound state) (inside : state.singleton.places thread ≠ .outside) :
    ∃ other, GoesOn state other := by
  by_cases holds : holdsWptrMtx (state.singleton.places thread) = true
  · exact sound.goesOn_inside holds
  · cases at_ : state.singleton.places thread with
    | outside => exact absurd at_ inside
    | probing =>
      refine ⟨thread, goesOn_of .probing at_ ⟨thread, rfl⟩ ?_⟩
      rw [DynSingleton.advance]
      split <;> rfl
    | entering =>
      cases owned : state.singleton.mgrWptrMtx with
      | none =>
        refine ⟨thread, goesOn_of .entering at_ ⟨thread, rfl⟩ ?_⟩
        simp [DynSingleton.advance, owned]
      | some owner => exact sound.goesOn_inside ((sound.ordered.wptrMtx owner).mpr owned)
    | returning manager slow => exact ⟨thread, goesOn_of _ at_ ⟨thread, rfl⟩ rfl⟩
    | destroying manager => exact ⟨thread, goesOn_of _ at_ ⟨thread, rfl⟩ rfl⟩
    | finishing => exact sound.goesOn_at_lock at_ (.inr rfl)
    | clearing => exact ⟨thread, goesOn_of_exists (by rw [at_]; rfl)⟩
    | _ =>
      rw [at_] at holds
      exact absurd rfl holds

theorem helper_run (run : Run (machine Thread) anyStep events state) :
    Run (ManagerSingleton.machine Thread) anyStep events state.singleton := by
  refine run.invariant (fun events state =>
    Run (ManagerSingleton.machine Thread) anyStep events state.singleton) .refl ?_
  intro events state action emitted after earlier known permitted fired
  cases action with
  | helper action chosen => exact known.next trivial (helper_step fired).2
  | rouse thread =>
    simp only [machine, Waits.step] at fired
    split at fired <;> cases fired
    rw [List.append_nil]
    exact known

end Simulation

/-- Thread 0 gets the manager and releases it, thread 1 sleeps until the destructor ends. -/
def reconstruction : List (Action Nat) :=
  [[.helper (.get 0) 0], List.replicate 10 (.helper (.advance 0) 0),
    [.helper (.release 0 0) 0, .helper (.get 1) 0], List.replicate 5 (.helper (.advance 1) 0),
    [.rouse 1], List.replicate 3 (.helper (.advance 1) 0)].flatten

end Rpcz.ConstructionWait
