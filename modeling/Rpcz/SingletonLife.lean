import Rpcz.ManagerSingleton
import Mathlib.Data.List.Basic

/-!
At most one manager. `mgr_exists` is a lock that one thread takes before it
constructs the manager and that the thread which destroys the manager gives
back; in between the manager is held by its pointers. A state of the helper
represents one phase of this cycle.
-/

namespace Rpcz.SingletonLife
open Automaton ManagerSingleton

variable {Thread : Type}

/-- The cycle of `mgr_exists`. A thread is named while it alone is responsible. -/
inductive Phase (Thread : Type) where
  | vacant
  | building (thread : Thread) (manager : Option ManagerId)
  | alive (manager : ManagerId)
  | tearing (thread : Thread) (manager : Option ManagerId)

namespace Phase

def exists? : Phase Thread → Bool
  | .vacant => false
  | _ => true

def agent : Phase Thread → Option Thread
  | .building thread _ | .tearing thread _ => some thread
  | _ => none

def present : Phase Thread → Option (ManagerId × Life)
  | .building _ (some manager) => some (manager, .constructing)
  | .alive manager => some (manager, .alive)
  | .tearing _ (some manager) => some (manager, .destroying)
  | _ => none

end Phase

def claim (thread : Thread) : Place → Option (Phase Thread)
  | .allocating => some (.building thread none)
  | .constructing manager => some (.building thread (some manager))
  | .publishing manager | .returning manager _ => some (.alive manager)
  | .destroying manager => some (.tearing thread (some manager))
  | .finishing | .clearing => some (.tearing thread none)
  | _ => none

/-- The pointer in the local variable `p`. -/
def localPointer : Place → Option ManagerId
  | .publishing manager | .returning manager _ => some manager
  | _ => none

/-- The places inside the scope of the lock of `mgr_exists_mtx`. -/
def holdsExistsMtx : Place → Bool
  | .testing | .claiming | .clearing => true
  | _ => false

/-- An object that has begun its constructor and not finished its destructor. -/
def Present (singleton : DynSingleton Thread) (manager : ManagerId) : Prop :=
  singleton.life manager ≠ .unborn ∧ singleton.life manager ≠ .destroyed

structure Represents (singleton : DynSingleton Thread) (phase : Phase Thread) : Prop where
  claimed : ∀ thread wanted, claim thread (singleton.places thread) = some wanted → phase = wanted
  active : ∀ thread, phase.agent = some thread →
    claim thread (singleton.places thread) = some phase
  exists_eq : singleton.mgrExists = phase.exists?
  pointed : ∀ thread manager, (thread, manager) ∈ singleton.pointers → phase = .alive manager
  owned : ∀ manager, phase = .alive manager → ∃ thread, (thread, manager) ∈ singleton.pointers
  carried : ∀ thread manager, localPointer (singleton.places thread) = some manager →
    (thread, manager) ∈ singleton.pointers
  claiming : ∀ thread, singleton.places thread = .claiming → phase = .vacant
  present : ∀ manager, Present singleton manager →
    phase.present = some (manager, singleton.life manager)
  living : ∀ manager life, phase.present = some (manager, life) → singleton.life manager = life
  fresh : ∀ manager, singleton.nextManager ≤ manager → singleton.life manager = .unborn

def Locked (singleton : DynSingleton Thread) : Prop :=
  ∀ thread, holdsExistsMtx (singleton.places thread) = true →
    singleton.mgrExistsMtx = some thread

theorem present_life (phase : Phase Thread) (manager : ManagerId) (life : Life)
    (given : phase.present = some (manager, life)) : life ≠ .unborn ∧ life ≠ .destroyed := by
  cases phase with
  | vacant => cases given
  | alive other => cases given; decide
  | building thread other => cases other <;> cases given; decide
  | tearing thread other => cases other <;> cases given; decide

section Steps
variable {singleton after : DynSingleton Thread} {phase : Phase Thread}
  {thread : Thread} {manager : ManagerId} {emitted : List (Event Thread)}

theorem Represents.own (known : Represents singleton (.alive manager)) (thread : Thread) :
    Represents (singleton.own thread manager) (.alive manager) where
  claimed := known.claimed
  active := known.active
  exists_eq := known.exists_eq
  pointed other id listed := by
    rcases List.mem_cons.mp listed with same | old
    · cases same; rfl
    · exact known.pointed other id old
  owned id alive := (known.owned id alive).imp fun other old => List.mem_cons_of_mem _ old
  carried other id local_ := List.mem_cons_of_mem _ (known.carried other id local_)
  claiming := known.claiming
  present := known.present
  living := known.living
  fresh := known.fresh

/-- `weak_ptr::lock` succeeds only for a manager that has a pointer. -/
theorem lock_pointed (locked : singleton.lock = some manager) :
    ∃ thread, (thread, manager) ∈ singleton.pointers := by
  have counted := (Option.filter_eq_some_iff.mp locked).2
  simp only [DynSingleton.useCount, decide_eq_true_eq, List.countP_pos_iff] at counted
  obtain ⟨pointer, listed, same⟩ := counted
  exact ⟨pointer.1, same ▸ listed⟩

theorem Represents.locked (known : Represents singleton phase)
    (locked : singleton.lock = some manager) : phase = .alive manager := by
  obtain ⟨other, listed⟩ := lock_pointed locked
  exact known.pointed other manager listed

theorem claim_agent {place : Place} {wanted : Phase Thread}
    (relies : claim thread place = some wanted) :
    wanted.agent = some thread ∨ ∃ manager, localPointer place = some manager ∧
      wanted = .alive manager := by
  cases place <;> cases relies
  case publishing manager => exact .inr ⟨manager, rfl, rfl⟩
  case returning manager slow => exact .inr ⟨manager, rfl, rfl⟩
  all_goals exact .inl rfl

theorem Represents.no_pointers (known : Represents singleton phase)
    (dead : ∀ manager, phase ≠ .alive manager) : singleton.pointers = [] := by
  apply List.eq_nil_iff_forall_not_mem.mpr
  intro pointer listed
  exact dead pointer.2 (known.pointed pointer.1 pointer.2 listed)

theorem Represents.only (known : Represents singleton phase) {life : Life}
    (present : phase.present = some (manager, life)) (other : ManagerId)
    (standing : Present singleton other) : other = manager := by
  have same := known.present other standing
  rw [present] at same
  exact (congrArg Prod.fst (Option.some.inj same)).symm

def Alone (singleton : DynSingleton Thread) (thread : Thread) : Prop :=
  ∀ other, other ≠ thread →
    claim other (singleton.places other) = none ∧ singleton.places other ≠ .claiming

theorem Represents.alone (known : Represents singleton phase) (agent : phase.agent = some thread) :
    Alone singleton thread := by
  intro other different
  constructor
  · cases relies : claim other (singleton.places other) with
    | none => rfl
    | some wanted =>
      have same := known.claimed other wanted relies
      subst same
      rcases claim_agent relies with own | ⟨manager, -, alive⟩
      · rw [agent] at own
        exact absurd (Option.some.inj own).symm different
      · rw [alive] at agent
        cases agent
  · intro claiming
    rw [known.claiming other claiming] at agent
    cases agent

theorem Represents.used (known : Represents singleton phase) {life : Life}
    (present : phase.present = some (manager, life)) : manager < singleton.nextManager := by
  by_contra unused
  have unborn := known.fresh manager (Nat.le_of_not_lt unused)
  have born := known.living manager life present
  rw [unborn] at born
  exact (present_life phase manager life present).1 born.symm

theorem present_update (singleton : DynSingleton Thread) {life : Life} {next : Phase Thread}
    (lives : after.life = Function.update singleton.life manager life)
    (only : ∀ other, Present singleton other → other = manager)
    (shown : life ≠ .unborn → life ≠ .destroyed → next.present = some (manager, life))
    (other : ManagerId) (present : Present after other) :
    next.present = some (other, after.life other) := by
  by_cases same : other = manager
  · subst same
    have new : after.life other = life := by rw [lives, Function.update_self]
    rw [Present, new] at present
    rw [new]
    exact shown present.1 present.2
  · have old : after.life other = singleton.life other := by
      rw [lives, Function.update_of_ne same]
    rw [Present, old] at present
    exact absurd (only other present) same

theorem living_update (singleton : DynSingleton Thread) {life : Life} {next : Phase Thread}
    (lives : after.life = Function.update singleton.life manager life)
    (shown : next.present = none ∨ next.present = some (manager, life))
    (other : ManagerId) (given : Life) (present : next.present = some (other, given)) :
    after.life other = given := by
  rcases shown with absent | shown
  · rw [absent] at present
    cases present
  · rw [shown] at present
    cases present
    rw [lives, Function.update_self]

theorem fresh_update {life : Life} (known : Represents singleton phase)
    (lives : after.life = Function.update singleton.life manager life)
    (later : singleton.nextManager ≤ after.nextManager) (used : manager < after.nextManager)
    (other : ManagerId) (unused : after.nextManager ≤ other) : after.life other = .unborn := by
  have different : other ≠ manager := Nat.ne_of_gt (Nat.lt_of_lt_of_le used unused)
  rw [lives, Function.update_of_ne different]
  exact known.fresh other (Nat.le_trans later unused)

variable [DecidableEq Thread]

theorem places_goTo (singleton : DynSingleton Thread) (thread other : Thread) (place : Place) :
    (singleton.goTo thread place).places other =
      if other = thread then place else singleton.places other := by
  simp [DynSingleton.goTo, Function.update_apply]

theorem Represents.goTo (known : Represents singleton phase) (thread : Thread) (place : Place)
    (wants : ∀ wanted, claim thread place = some wanted → phase = wanted)
    (keeps : phase.agent = some thread → claim thread place = some phase)
    (carries : ∀ manager, localPointer place = some manager →
      (thread, manager) ∈ singleton.pointers)
    (claiming : place = .claiming → phase = .vacant) (wptrMtx existsMtx : Option Thread)
    (wptr : Option ManagerId) :
    Represents ({ singleton with
      mgrWptrMtx := wptrMtx
      mgrExistsMtx := existsMtx
      mgrWptr := wptr }.goTo thread place) phase where
  claimed other wanted := by
    rw [places_goTo]
    split
    · next same => rw [same]; exact wants wanted
    · exact known.claimed other wanted
  active other agent := by
    rw [places_goTo]
    split
    · next same => rw [same] at agent ⊢; exact keeps agent
    · exact known.active other agent
  exists_eq := known.exists_eq
  pointed := known.pointed
  owned := known.owned
  carried other manager := by
    rw [places_goTo]
    split
    · next same => rw [same]; exact carries manager
    · exact known.carried other manager
  claiming other := by
    rw [places_goTo]
    split
    · exact claiming
    · exact known.claiming other
  present := known.present
  living := known.living
  fresh := known.fresh

theorem Represents.pass (known : Represents singleton phase) {place : Place}
    (free : claim thread (singleton.places thread) = none) (remains : claim thread place = none)
    (calm : place ≠ .claiming) (wptrMtx existsMtx : Option Thread) :
    Represents ({ singleton with
      mgrWptrMtx := wptrMtx
      mgrExistsMtx := existsMtx }.goTo thread place) phase := by
  refine known.goTo thread place ?_ ?_ ?_ ?_ wptrMtx existsMtx singleton.mgrWptr
  · intro wanted wants
    rw [remains] at wants
    cases wants
  · intro agent
    have relied := known.active thread agent
    rw [free] at relied
    cases relied
  · intro manager carried
    cases place <;> simp_all [claim, localPointer]
  · exact fun claiming => absurd claiming calm

theorem Represents.locks (known : Represents singleton phase)
    (locked : singleton.lock = some manager) (slow : Bool) :
    Represents ((singleton.own thread manager).goTo thread (.returning manager slow)) phase := by
  have alive := known.locked locked
  subst alive
  refine (known.own thread).goTo thread (.returning manager slow) ?_ ?_ ?_ ?_
    singleton.mgrWptrMtx singleton.mgrExistsMtx singleton.mgrWptr
  · intro wanted wants
    exact Option.some.inj wants
  · intro agent
    cases agent
  · intro carried wants
    cases wants
    exact List.mem_cons_self
  · intro claiming
    cases claiming

theorem Represents.turn (alone : Alone singleton thread) (place : Place) {next : Phase Thread}
    (places : after.places = Function.update singleton.places thread place)
    (mine : (claim thread place).getD .vacant = next) (calm : place ≠ .claiming)
    (exists_eq : after.mgrExists = next.exists?)
    (pointers : after.pointers = (localPointer place).toList.map (Prod.mk thread))
    (present : ∀ manager, Present after manager →
      next.present = some (manager, after.life manager))
    (living : ∀ manager life, next.present = some (manager, life) → after.life manager = life)
    (fresh : ∀ manager, after.nextManager ≤ manager → after.life manager = .unborn) :
    Represents after next where
  claimed other wanted relies := by
    rw [places, Function.update_apply] at relies
    split at relies
    · next same =>
      rw [same] at relies
      rw [relies] at mine
      exact mine.symm
    · next different =>
      rw [(alone other different).1] at relies
      cases relies
  active other agent := by
    rw [places, Function.update_apply]
    split
    · next same =>
      rw [same]
      cases relies : claim thread place with
      | none =>
        rw [relies] at mine
        rw [← mine] at agent
        cases agent
      | some wanted =>
        rw [relies] at mine
        exact congrArg some mine
    · next different =>
      cases relies : claim thread place with
      | none =>
        rw [relies] at mine
        rw [← mine] at agent
        cases agent
      | some wanted =>
        rw [relies] at mine
        change wanted = next at mine
        rw [← mine] at agent
        rcases claim_agent relies with own | ⟨manager, -, alive⟩
        · rw [agent] at own
          exact absurd (Option.some.inj own) different
        · rw [alive] at agent
          cases agent
  exists_eq := exists_eq
  pointed other manager listed := by
    rw [pointers] at listed
    cases place <;> simp_all [claim, localPointer]
  owned manager alive := by
    refine ⟨thread, ?_⟩
    rw [pointers]
    cases place <;> simp_all [claim, localPointer]
  carried other manager carried := by
    rw [places, Function.update_apply] at carried
    split at carried
    · next same =>
      rw [pointers, carried, same]
      exact List.mem_singleton_self _
    · next different =>
      have free := (alone other different).1
      cases at_ : singleton.places other <;> simp_all [claim, localPointer]
  claiming other claiming := by
    rw [places, Function.update_apply] at claiming
    split at claiming
    · exact absurd claiming calm
    · next different => exact absurd claiming (alone other different).2
  present := present
  living := living
  fresh := fresh

theorem Represents.claims (known : Represents singleton phase) (locked : Locked singleton)
    (at_ : singleton.places thread = .claiming) :
    Represents ({ singleton with mgrExists := true, mgrExistsMtx := none }.goTo thread .allocating)
      (.building thread none) := by
  have vacant := known.claiming thread at_
  subst vacant
  have owner := locked thread (by rw [at_]; rfl)
  have alone : Alone singleton thread := by
    intro other different
    constructor
    · cases relies : claim other (singleton.places other) with
      | none => rfl
      | some wanted =>
        have same := known.claimed other wanted relies
        subst same
        rcases claim_agent relies with own | ⟨manager, -, alive⟩
        · cases own
        · cases alive
    · intro claiming
      have second := locked other (by rw [claiming]; rfl)
      rw [owner] at second
      exact different (Option.some.inj second).symm
  apply Represents.turn alone .allocating
  · rfl
  · rfl
  · decide
  · rfl
  · exact known.no_pointers (fun manager alive => by cases alive)
  · intro manager present
    exact known.present manager present
  · intro manager life present
    cases present
  · exact known.fresh

theorem Represents.allocates (known : Represents singleton phase)
    (at_ : singleton.places thread = .allocating) :
    Represents (({ singleton with nextManager := singleton.nextManager + 1 }.setLife
        singleton.nextManager .constructing).goTo thread (.constructing singleton.nextManager))
      (.building thread (some singleton.nextManager)) := by
  have building := known.claimed thread (.building thread none) (by rw [at_]; rfl)
  subst building
  have only : ∀ other, Present singleton other → other = singleton.nextManager := by
    intro other present
    cases known.present other present
  apply Represents.turn (known.alone rfl) (.constructing singleton.nextManager)
  · rfl
  · rfl
  · nofun
  · exact known.exists_eq
  · exact known.no_pointers (fun manager alive => by cases alive)
  · exact present_update singleton rfl only (fun _ _ => rfl)
  · exact living_update singleton rfl (.inr rfl)
  · exact fresh_update known rfl (Nat.le_succ _) (Nat.lt_succ_self _)

theorem Represents.constructs (known : Represents singleton phase)
    (at_ : singleton.places thread = .constructing manager) :
    Represents (((singleton.setLife manager .alive).own thread manager).goTo thread
      (.publishing manager)) (.alive manager) := by
  have building := known.claimed thread (.building thread (some manager)) (by rw [at_]; rfl)
  subst building
  apply Represents.turn (known.alone rfl) (.publishing manager)
  · rfl
  · rfl
  · nofun
  · exact known.exists_eq
  · change (thread, manager) :: singleton.pointers = _
    rw [known.no_pointers (fun manager alive => by cases alive)]
    rfl
  · exact present_update singleton rfl (known.only rfl) (fun _ _ => rfl)
  · exact living_update singleton rfl (.inr rfl)
  · exact fresh_update known rfl (Nat.le_refl _) (known.used rfl)

theorem Represents.destroys (known : Represents singleton phase)
    (at_ : singleton.places thread = .destroying manager) :
    Represents ((singleton.setLife manager .destroyed).goTo thread .finishing)
      (.tearing thread none) := by
  have tearing := known.claimed thread (.tearing thread (some manager)) (by rw [at_]; rfl)
  subst tearing
  apply Represents.turn (known.alone rfl) .finishing
  · rfl
  · rfl
  · decide
  · exact known.exists_eq
  · exact known.no_pointers (fun manager alive => by cases alive)
  · exact present_update singleton rfl (known.only rfl)
      (fun _ standing => absurd rfl standing)
  · exact living_update singleton rfl (.inl rfl)
  · exact fresh_update known rfl (Nat.le_refl _) (known.used rfl)

theorem Represents.clears (known : Represents singleton phase)
    (at_ : singleton.places thread = .clearing) :
    Represents ({ singleton with mgrExists := false, mgrExistsMtx := none }.goTo thread .outside)
      .vacant := by
  have tearing := known.claimed thread (.tearing thread none) (by rw [at_]; rfl)
  subst tearing
  apply Represents.turn (known.alone rfl) .outside
  · rfl
  · rfl
  · decide
  · rfl
  · exact known.no_pointers (fun manager alive => by cases alive)
  · intro manager present
    exact known.present manager present
  · intro manager life present
    cases present
  · exact known.fresh

/-- A step keeps the discipline of `mgr_exists_mtx` if it takes the free mutex,
gives its own back or leaves it alone. -/
theorem Locked.goTo (locked : Locked singleton) (place : Place)
    (places : after.places = Function.update singleton.places thread place)
    (mine : holdsExistsMtx place = true → after.mgrExistsMtx = some thread)
    (fair : after.mgrExistsMtx = singleton.mgrExistsMtx ∨ singleton.mgrExistsMtx = none ∨
      singleton.mgrExistsMtx = some thread) : Locked after := by
  intro other holds
  rw [places, Function.update_apply] at holds
  split at holds
  · next same => rw [same]; exact mine holds
  · next different =>
    have owner := locked other holds
    rcases fair with same | free | own
    · rw [same, owner]
    · rw [free] at owner
      cases owner
    · rw [own] at owner
      exact absurd (Option.some.inj owner).symm different

end Steps

/-- The value of `mgr_exists` that the events tell, if constructions and
destructions alternate. -/
def track (standing : Bool) : Event Thread → Option Bool
  | .startedConstruction _ => if standing then none else some true
  | .finishedDestruction _ => if standing then some false else none
  | _ => some standing

structure Kept (phase : Phase Thread) (emitted : List (Event Thread))
    (after : DynSingleton Thread) (next : Phase Thread) : Prop where
  represents : Represents after next
  locked : Locked after
  tracked : emitted.foldlM track phase.exists? = some next.exists?

section Runs
variable [DecidableEq Thread] {singleton after : DynSingleton Thread} {phase : Phase Thread}
  {thread : Thread} {manager : ManagerId} {events emitted : List (Event Thread)}

theorem kept_advance (known : Represents singleton phase) (locked : Locked singleton)
    (fired : singleton.advance thread (singleton.places thread) = some (after, emitted)) :
    ∃ next, Kept phase emitted after next := by
  cases at_ : singleton.places thread with
  | outside =>
    rw [at_] at fired
    cases fired
  | probing =>
    rw [at_] at fired
    simp only [DynSingleton.advance] at fired
    split at fired
    · next manager success =>
      cases fired
      exact ⟨phase, known.locks success false, locked.goTo _ rfl nofun (.inl rfl), rfl⟩
    · cases fired
      exact ⟨phase, known.pass (by rw [at_]; rfl) rfl (by decide) _ _,
        locked.goTo _ rfl nofun (.inl rfl), rfl⟩
  | entering =>
    rw [at_] at fired
    simp only [DynSingleton.advance] at fired
    split at fired <;> cases fired
    exact ⟨phase, known.pass (by rw [at_]; rfl) rfl (by decide) (some thread) _,
      locked.goTo _ rfl nofun (.inl rfl), rfl⟩
  | relocking =>
    rw [at_] at fired
    simp only [DynSingleton.advance] at fired
    split at fired
    · next manager success =>
      cases fired
      exact ⟨phase, known.locks success true, locked.goTo _ rfl nofun (.inl rfl), rfl⟩
    · cases fired
      exact ⟨phase, known.pass (by rw [at_]; rfl) rfl (by decide) _ _,
        locked.goTo _ rfl nofun (.inl rfl), rfl⟩
  | starting =>
    rw [at_] at fired
    simp only [DynSingleton.advance] at fired
    split at fired
    · next free =>
      cases fired
      exact ⟨phase, known.pass (by rw [at_]; rfl) rfl (by decide) _ (some thread),
        locked.goTo _ rfl (fun _ => rfl) (.inr (.inl free)), rfl⟩
    · cases fired
  | testing =>
    have owner := locked thread (by rw [at_]; rfl)
    rw [at_] at fired
    simp only [DynSingleton.advance] at fired
    split at fired
    · cases fired
      exact ⟨phase, known.pass (by rw [at_]; rfl) rfl (by decide) _ none,
        locked.goTo _ rfl nofun (.inr (.inr owner)), rfl⟩
    · next absent =>
      cases fired
      have vacant : phase = .vacant := by
        rw [known.exists_eq] at absent
        cases phase with
        | vacant => rfl
        | _ => exact absurd rfl absent
      subst vacant
      refine ⟨.vacant, ?_, locked.goTo _ rfl (fun _ => owner) (.inl rfl), rfl⟩
      exact known.goTo thread .claiming (fun _ wants => by cases wants) nofun
        (fun _ wants => by cases wants) (fun _ => rfl) _ _ _
  | waiting =>
    rw [at_] at fired
    cases fired
    exact ⟨phase, known.pass (by rw [at_]; rfl) rfl (by decide) _ _,
      locked.goTo _ rfl nofun (.inl rfl), rfl⟩
  | claiming =>
    have owner := locked thread (by rw [at_]; rfl)
    have vacant := known.claiming thread at_
    rw [at_] at fired
    cases fired
    subst vacant
    exact ⟨_, known.claims locked at_, locked.goTo _ rfl nofun (.inr (.inr owner)), rfl⟩
  | allocating =>
    have building := known.claimed thread (.building thread none) (by rw [at_]; rfl)
    rw [at_] at fired
    cases fired
    subst building
    exact ⟨_, known.allocates at_, locked.goTo _ rfl nofun (.inl rfl), rfl⟩
  | constructing manager =>
    have building := known.claimed thread (.building thread (some manager)) (by rw [at_]; rfl)
    rw [at_] at fired
    cases fired
    subst building
    exact ⟨_, known.constructs at_, locked.goTo _ rfl nofun (.inl rfl), rfl⟩
  | publishing manager =>
    have alive := known.claimed thread (.alive manager) (by rw [at_]; rfl)
    have carried := known.carried thread manager (by rw [at_]; rfl)
    rw [at_] at fired
    cases fired
    subst alive
    refine ⟨.alive manager, ?_, locked.goTo _ rfl nofun (.inl rfl), rfl⟩
    refine known.goTo thread (.returning manager true) ?_ nofun ?_ nofun _ _ (some manager)
    · intro wanted wants
      exact Option.some.inj wants
    · intro other same
      cases same
      exact carried
  | returning manager slow =>
    have alive := known.claimed thread (.alive manager) (by rw [at_]; rfl)
    rw [at_] at fired
    cases fired
    subst alive
    refine ⟨.alive manager, ?_, locked.goTo _ rfl nofun (.inl rfl), rfl⟩
    exact known.goTo thread .outside (fun _ wants => by cases wants) nofun
      (fun _ wants => by cases wants) nofun _ _ _
  | destroying manager =>
    have tearing := known.claimed thread (.tearing thread (some manager)) (by rw [at_]; rfl)
    rw [at_] at fired
    cases fired
    subst tearing
    exact ⟨_, known.destroys at_, locked.goTo _ rfl nofun (.inl rfl), rfl⟩
  | finishing =>
    have tearing := known.claimed thread (.tearing thread none) (by rw [at_]; rfl)
    rw [at_] at fired
    simp only [DynSingleton.advance] at fired
    split at fired
    · next free =>
      cases fired
      subst tearing
      refine ⟨.tearing thread none, ?_, locked.goTo _ rfl (fun _ => rfl) (.inr (.inl free)), rfl⟩
      exact known.goTo thread .clearing (fun _ wants => Option.some.inj wants) (fun _ => rfl)
        (fun _ wants => by cases wants) nofun _ (some thread) _
    · cases fired
  | clearing =>
    have owner := locked thread (by rw [at_]; rfl)
    have tearing := known.claimed thread (.tearing thread none) (by rw [at_]; rfl)
    rw [at_] at fired
    cases fired
    subst tearing
    exact ⟨_, known.clears at_, locked.goTo _ rfl nofun (.inr (.inr owner)), rfl⟩

omit [DecidableEq Thread] in
theorem useCount_zero (none_left : singleton.useCount manager = 0) (other : Thread) :
    (other, manager) ∉ singleton.pointers := by
  intro listed
  have zero := List.countP_eq_zero.mp none_left (other, manager) listed
  simp at zero

theorem kept_release (known : Represents singleton phase) (locked : Locked singleton)
    (outside : singleton.places thread = .outside)
    (listed : (thread, manager) ∈ singleton.pointers) :
    ∃ next, Kept phase (singleton.release thread manager).2
      (singleton.release thread manager).1 next := by
  have alive := known.pointed thread manager listed
  subst alive
  simp only [DynSingleton.release]
  split
  · next last =>
    have gone : ∀ other id, (other, id) ∉ singleton.pointers.erase (thread, manager) := by
      intro other id left
      have same := known.pointed other id (List.mem_of_mem_erase left)
      cases same
      exact useCount_zero last other left
    refine ⟨.tearing thread (some manager), ?_, locked.goTo (.destroying manager) rfl nofun
      (.inl rfl), rfl⟩
    have alone : Alone singleton thread := by
      intro other different
      constructor
      · cases relies : claim other (singleton.places other) with
        | none => rfl
        | some wanted =>
          have same := known.claimed other wanted relies
          subst same
          rcases claim_agent relies with own | ⟨id, carries, alive⟩
          · cases own
          · have kept : (other, id) ∈ singleton.pointers.erase (thread, manager) := by
              refine (List.mem_erase_of_ne ?_).mpr (known.carried other id carries)
              intro same
              exact different (congrArg Prod.fst same)
            exact absurd kept (gone other id)
      · intro claiming
        cases known.claiming other claiming
    apply Represents.turn alone (.destroying manager)
    · rfl
    · rfl
    · nofun
    · exact known.exists_eq
    · exact List.eq_nil_iff_forall_not_mem.mpr (fun pointer => gone pointer.1 pointer.2)
    · exact present_update singleton rfl (known.only rfl) (fun _ _ => rfl)
    · exact living_update singleton rfl (.inr rfl)
    · exact fresh_update known rfl (Nat.le_refl _) (known.used rfl)
  · next left =>
    have remaining : ∃ other, (other, manager) ∈ singleton.pointers.erase (thread, manager) := by
      simp only [DynSingleton.useCount] at left
      obtain ⟨pointer, kept, same⟩ := List.countP_pos_iff.mp (Nat.pos_of_ne_zero left)
      simp only [decide_eq_true_eq] at same
      exact ⟨pointer.1, same ▸ kept⟩
    refine ⟨.alive manager, ?_, locked, rfl⟩
    exact
      { known with
        pointed := fun other id kept => known.pointed other id (List.mem_of_mem_erase kept)
        owned := fun id same => by cases same; exact remaining
        carried := fun other id carries => by
          have different : (other, id) ≠ (thread, manager) := by
            intro same
            cases same
            rw [outside] at carries
            cases carries
          exact (List.mem_erase_of_ne different).mpr (known.carried other id carries) }

theorem kept_step {action : Action Thread} (known : Represents singleton phase)
    (locked : Locked singleton) (fired : singleton.step action = some (after, emitted)) :
    ∃ next, Kept phase emitted after next := by
  cases action with
  | get thread =>
    simp only [DynSingleton.step] at fired
    split at fired <;> cases fired
    next outside =>
    exact ⟨phase, known.pass (by rw [outside]; rfl) rfl (by decide) _ _,
      locked.goTo _ rfl nofun (.inl rfl), rfl⟩
  | copy owner receiver manager =>
    simp only [DynSingleton.step] at fired
    split at fired <;> cases fired
    next listed =>
    have alive := known.pointed owner manager listed
    subst alive
    exact ⟨.alive manager, known.own receiver, locked, rfl⟩
  | release thread manager =>
    simp only [DynSingleton.step] at fired
    split at fired
    · next able =>
      have same := Option.some.inj fired
      have kept := kept_release known locked able.1 able.2
      rw [same] at kept
      exact kept
    · cases fired
  | advance thread => exact kept_advance known locked fired

omit [DecidableEq Thread] in
theorem represents_new : Represents (DynSingleton.new : DynSingleton Thread) .vacant where
  claimed other wanted relies := by cases relies
  active other agent := by cases agent
  exists_eq := rfl
  pointed other manager listed := by cases listed
  owned manager alive := by cases alive
  carried other manager carries := by cases carries
  claiming other claiming := by cases claiming
  present manager standing := absurd rfl standing.1
  living manager life present := by cases present
  fresh manager unused := rfl

theorem represents_of_run (run : Run (machine Thread) anyStep events singleton) :
    ∃ phase, Kept .vacant events singleton phase := by
  refine Steps.invariant (fun events singleton => ∃ phase, Kept .vacant events singleton phase)
    ?_ ?_ run
  · refine ⟨.vacant, represents_new, ?_, rfl⟩
    intro other holds
    cases holds
  · rintro events singleton action emitted after - ⟨phase, known⟩ - fired
    obtain ⟨next, kept⟩ := kept_step known.represents known.locked fired
    refine ⟨next, kept.represents, kept.locked, ?_⟩
    rw [List.foldlM_append, known.tracked]
    exact kept.tracked

abbrev Undestroyed (life : Life) : Prop := life ≠ .destroying ∧ life ≠ .destroyed

structure Recorded (events : List (Event Thread)) (singleton : DynSingleton Thread) : Prop where
  constructed : ∀ manager, singleton.life manager = .alive → .constructed manager ∈ events
  undestroyed : ∀ manager, Undestroyed (singleton.life manager) → .destroying manager ∉ events

omit [DecidableEq Thread] in
theorem recorded_setLife {life : Life} (recorded : Recorded events singleton)
    (lives : after.life = Function.update singleton.life manager life)
    (told : life = .alive → .constructed manager ∈ emitted)
    (destroys : ∀ other, .destroying other ∈ emitted → other = manager ∧ ¬ Undestroyed life)
    (forward : Undestroyed life → Undestroyed (singleton.life manager)) :
    Recorded (events ++ emitted) after where
  constructed other alive := by
    rw [lives, Function.update_apply] at alive
    split at alive
    · next same =>
      rw [same]
      exact List.mem_append_right _ (told alive)
    · exact List.mem_append_left _ (recorded.constructed other alive)
  undestroyed other standing := by
    rw [lives, Function.update_apply] at standing
    intro begun
    split at standing
    · next same =>
      rcases List.mem_append.mp begun with before | now
      · exact recorded.undestroyed other (same ▸ forward standing) before
      · exact (destroys other now).2 standing
    · next different =>
      rcases List.mem_append.mp begun with before | now
      · exact recorded.undestroyed other standing before
      · exact different (destroys other now).1

omit [DecidableEq Thread] in
theorem recorded_same (recorded : Recorded events singleton) (lives : after.life = singleton.life)
    (quiet : ∀ manager, .destroying manager ∉ emitted) : Recorded (events ++ emitted) after where
  constructed manager alive :=
    List.mem_append_left _ (recorded.constructed manager (lives ▸ alive))
  undestroyed manager standing begun := by
    rcases List.mem_append.mp begun with before | now
    · exact recorded.undestroyed manager (lives ▸ standing) before
    · exact quiet manager now

theorem recorded_advance (known : Represents singleton phase) (recorded : Recorded events singleton)
    (fired : singleton.advance thread (singleton.places thread) = some (after, emitted)) :
    Recorded (events ++ emitted) after := by
  cases at_ : singleton.places thread with
  | allocating =>
    rw [at_] at fired
    cases fired
    refine recorded_setLife recorded rfl nofun ?_ ?_
    · intro other begun
      simp at begun
    · intro standing
      rw [known.fresh _ (Nat.le_refl _)]
      decide
  | constructing manager =>
    have building := known.claimed thread (.building thread (some manager)) (by rw [at_]; rfl)
    have life := known.living manager .constructing (by rw [building]; rfl)
    rw [at_] at fired
    cases fired
    refine recorded_setLife recorded rfl (fun _ => List.mem_singleton_self _) ?_ ?_
    · intro other begun
      simp at begun
    · intro standing
      rw [life]
      decide
  | destroying manager =>
    rw [at_] at fired
    cases fired
    refine recorded_setLife recorded rfl nofun ?_ ?_
    · intro other begun
      simp at begun
    · intro standing
      exact absurd rfl standing.2
  | _ =>
    rw [at_] at fired
    simp only [DynSingleton.advance] at fired
    try split at fired
    all_goals cases fired
    all_goals exact recorded_same recorded rfl (fun _ begun => by simp at begun)

theorem recorded_step {action : Action Thread} (known : Represents singleton phase)
    (recorded : Recorded events singleton)
    (fired : singleton.step action = some (after, emitted)) :
    Recorded (events ++ emitted) after := by
  cases action with
  | get thread =>
    simp only [DynSingleton.step] at fired
    split at fired <;> cases fired
    exact recorded_same recorded rfl nofun
  | copy owner receiver manager =>
    simp only [DynSingleton.step] at fired
    split at fired <;> cases fired
    exact recorded_same recorded rfl nofun
  | release thread manager =>
    simp only [DynSingleton.step, DynSingleton.release] at fired
    split at fired
    · split at fired
      · cases fired
        refine recorded_setLife recorded rfl nofun ?_ ?_
        · intro other begun
          simp only [List.mem_cons, reduceCtorEq, Event.destroying.injEq, List.not_mem_nil,
            or_false, false_or] at begun
          exact ⟨begun, fun standing => standing.1 rfl⟩
        · intro standing
          exact absurd rfl standing.1
      · cases fired
        exact recorded_same recorded rfl (fun _ begun => by simp at begun)
    · cases fired
  | advance thread => exact recorded_advance known recorded fired

theorem recorded_of_run (run : Run (machine Thread) anyStep events singleton) :
    Recorded events singleton := by
  refine Steps.invariant Recorded ⟨?_, ?_⟩ ?_ run
  · intro manager alive
    cases alive
  · intro manager standing begun
    cases begun
  · intro events singleton action emitted after earlier recorded _ fired
    obtain ⟨phase, known⟩ := represents_of_run earlier
    exact recorded_step known.represents recorded fired

theorem got_step {action : Action Thread} {owner : Thread}
    (fired : singleton.step action = some (after, emitted))
    (returned : .got owner manager ∈ emitted) :
    localPointer (singleton.places owner) = some manager ∧ emitted = [.got owner manager] := by
  cases action with
  | get thread =>
    simp only [DynSingleton.step] at fired
    split at fired <;> cases fired
    cases returned
  | copy owner receiver manager =>
    simp only [DynSingleton.step] at fired
    split at fired <;> cases fired
    cases returned
  | release thread manager =>
    simp only [DynSingleton.step, DynSingleton.release] at fired
    split at fired
    · split at fired <;> cases fired <;> simp at returned
    · cases fired
  | advance thread =>
    simp only [DynSingleton.step] at fired
    cases at_ : singleton.places thread with
    | returning id slow =>
      rw [at_] at fired
      cases fired
      simp only [List.mem_singleton, Event.got.injEq] at returned
      obtain ⟨rfl, rfl⟩ := returned
      exact ⟨by rw [at_]; rfl, rfl⟩
    | _ =>
      rw [at_] at fired
      simp only [DynSingleton.advance] at fired
      try split at fired
      all_goals cases fired
      all_goals simp at returned

end Runs

/-- Between the end of `start_construction` and the first pointer. -/
def inConstruction : Place → Bool
  | .allocating | .constructing _ => true
  | _ => false

/-- Between the release of the last pointer and the end of `finish_destruction`. -/
def inDestruction : Place → Bool
  | .destroying _ | .finishing | .clearing => true
  | _ => false

def InUse (singleton : DynSingleton Thread) : Prop :=
  (∃ thread, inConstruction (singleton.places thread) = true) ∨ singleton.pointers ≠ [] ∨
    ∃ thread, inDestruction (singleton.places thread) = true

structure Singular (events : List (Event Thread)) (singleton : DynSingleton Thread) : Prop where
  /-- One object at most is under construction, alive or under destruction. -/
  unique : ∀ first second, Present singleton first → Present singleton second → first = second
  /-- `mgr_exists` is set by each end of `start_construction` and cleared by the
  next `finish_destruction`. -/
  tracked : events.foldlM track false = some singleton.mgrExists
  inUse : singleton.mgrExists = true ↔ InUse singleton
  /-- What `manager::get` returns is constructed, and its destructor has not started. -/
  returned : ∀ before thread manager rest, events = before ++ .got thread manager :: rest →
    .constructed manager ∈ before ∧ .destroying manager ∉ before
  /-- So it stays while it is owned. -/
  held : ∀ thread manager, (thread, manager) ∈ singleton.pointers → singleton.life manager = .alive
  same : ∀ owner other first second, (owner, first) ∈ singleton.pointers →
    (other, second) ∈ singleton.pointers → first = second

theorem Represents.unique {singleton : DynSingleton Thread} {phase : Phase Thread}
    (known : Represents singleton phase) (first second : ManagerId)
    (one : Present singleton first) (two : Present singleton second) : first = second := by
  have given := known.present first one
  rw [known.present second two] at given
  exact (congrArg Prod.fst (Option.some.inj given)).symm

theorem Represents.inUse {singleton : DynSingleton Thread} {phase : Phase Thread}
    (known : Represents singleton phase) : singleton.mgrExists = true ↔ InUse singleton := by
  rw [known.exists_eq]
  constructor
  · intro standing
    cases phase with
    | vacant => cases standing
    | building thread manager =>
      have relies := known.active thread rfl
      refine .inl ⟨thread, ?_⟩
      cases at_ : singleton.places thread <;> rw [at_] at relies <;> cases relies <;> rfl
    | alive manager =>
      obtain ⟨thread, listed⟩ := known.owned manager rfl
      exact .inr (.inl (List.ne_nil_of_mem listed))
    | tearing thread manager =>
      have relies := known.active thread rfl
      refine .inr (.inr ⟨thread, ?_⟩)
      cases at_ : singleton.places thread <;> rw [at_] at relies <;> cases relies <;> rfl
  · rintro (⟨thread, building⟩ | listed | ⟨thread, tearing⟩)
    · have claimed := known.claimed thread
      cases at_ : singleton.places thread <;> rw [at_] at building claimed <;> cases building
      all_goals rw [claimed _ rfl]; rfl
    · obtain ⟨pointer, listed⟩ := List.exists_mem_of_ne_nil _ listed
      rw [known.pointed pointer.1 pointer.2 listed]
      rfl
    · have claimed := known.claimed thread
      cases at_ : singleton.places thread <;> rw [at_] at tearing claimed <;> cases tearing
      all_goals rw [claimed _ rfl]; rfl

theorem Represents.held {singleton : DynSingleton Thread} {phase : Phase Thread}
    (known : Represents singleton phase) (thread : Thread) (manager : ManagerId)
    (listed : (thread, manager) ∈ singleton.pointers) : singleton.life manager = .alive := by
  have alive := known.pointed thread manager listed
  exact known.living manager .alive (by rw [alive]; rfl)

/-- Whatever any number of threads do, there is at most one manager. -/
theorem one_manager [DecidableEq Thread] {events : List (Event Thread)}
    {singleton : DynSingleton Thread} (run : Run (machine Thread) anyStep events singleton) :
    Singular events singleton := by
  obtain ⟨phase, known⟩ := represents_of_run run
  refine ⟨known.represents.unique, ?_, known.represents.inUse, ?_, known.represents.held, ?_⟩
  · rw [known.represents.exists_eq]
    exact known.tracked
  · rintro before thread manager rest rfl
    obtain ⟨earlier, pre, post, later, state, action, after, ran, permitted, fired, left, -, -⟩ :=
      run.occurs
    obtain ⟨carried, alone⟩ := got_step fired (List.mem_append_right pre List.mem_cons_self)
    obtain ⟨standing, kept⟩ := represents_of_run ran
    have life := kept.represents.held thread manager
      (kept.represents.carried thread manager carried)
    have recorded := recorded_of_run ran
    have front : pre = [] := by
      cases pre with
      | nil => rfl
      | cons head tail => simp at alone
    rw [left, front, List.append_nil]
    exact ⟨recorded.constructed manager life, recorded.undestroyed manager (by rw [life]; decide)⟩
  · intro owner other first second one two
    have alive := known.represents.pointed owner first one
    rw [known.represents.pointed other second two] at alive
    cases alive
    rfl

/-- Thread 2 asks for the manager that thread 1 is destroying, waits, and makes
the next one, which thread 3 then shares. -/
def handover : List (Action Nat) :=
  let run (thread steps : Nat) : List (Action Nat) := List.replicate steps (.advance thread)
  [[.get 0], run 0 10, [.get 1], run 1 2, [.release 0 0, .release 1 0, .get 2], run 2 5, run 1 3,
    run 2 8, [.get 3], run 3 2].flatten

theorem one_manager_handover :
    (reached (machine Nat) handover).1.pointers = [(3, 1), (2, 1)] ∧
      Singular (reached (machine Nat) handover).2 (reached (machine Nat) handover).1 := by
  constructor
  · decide +kernel
  · exact one_manager (run_reached (machine Nat) handover)

end Rpcz.SingletonLife
