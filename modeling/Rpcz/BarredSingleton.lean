import Rpcz.SingletonLife

/-!
`manager::get` while `mgr_exists` is set and nobody holds a pointer. Every thread
comes as far as the wait of `start_construction` and no further.
-/

namespace Rpcz.BarredSingleton
open Automaton ManagerSingleton

/-- The places of `manager::get` before `mgr_exists` is set. -/
def calm : Place → Bool
  | .outside | .probing | .entering | .relocking | .starting | .testing | .waiting => true
  | _ => false

/-- The places of `make_manager_ptr` up to that wait. -/
def inMake : Place → Bool
  | .entering | .relocking | .starting | .testing | .waiting => true
  | _ => false

section Barred
variable {Thread : Type}

theorem calm_of_claim {thread : Thread} {place : Place} (free : SingletonLife.claim thread place = none)
    (apart : place ≠ .claiming) : calm place = true := by
  cases place <;> first | rfl | exact absurd rfl apart | cases free

theorem lock_none {singleton : DynSingleton Thread} (alone : singleton.pointers = []) :
    singleton.lock = none := by
  unfold DynSingleton.lock DynSingleton.useCount
  rw [alone]
  cases singleton.mgrWptr <;> rfl

/-- What a step of the helper leaves as it is while `mgr_exists` is set for nothing. -/
structure Barred (singleton next : DynSingleton Thread) : Prop where
  exists_eq : next.mgrExists = true
  pointers : next.pointers = []
  stays : ∀ other, calm (singleton.places other) = true → calm (next.places other) = true
  inside : ∀ other, inMake (singleton.places other) = true → inMake (next.places other) = true
  same : ∀ other, calm (singleton.places other) = false →
    next.places other = singleton.places other

variable [DecidableEq Thread]

theorem barred_goTo {singleton next : DynSingleton Thread} {thread : Thread} {place : Place}
    (exists_eq : next.mgrExists = true) (pointers : next.pointers = [])
    (places : next.places = Function.update singleton.places thread place)
    (before : calm (singleton.places thread) = true) (later : calm place = true)
    (deeper : inMake (singleton.places thread) = true → inMake place = true) :
    Barred singleton next := by
  refine ⟨exists_eq, pointers, fun other held => ?_, fun other held => ?_, fun other held => ?_⟩
  · rw [places, Function.update_apply]
    split
    · exact later
    · exact held
  · rw [places, Function.update_apply]
    split
    · next here => exact deeper (here ▸ held)
    · exact held
  · rw [places, Function.update_apply]
    split
    · next here =>
      rw [here, before] at held
      cases held
    · rfl

theorem calm_step {singleton next : DynSingleton Thread} {action : ManagerSingleton.Action Thread}
    {events : List (ManagerSingleton.Event Thread)} (taken : singleton.mgrExists = true)
    (alone : singleton.pointers = [])
    (active : ∀ thread, action = .advance thread → calm (singleton.places thread) = true)
    (fired : singleton.step action = some (next, events)) : Barred singleton next ∧ events = [] := by
  cases action with
  | get thread =>
    simp only [DynSingleton.step] at fired
    split at fired <;> cases fired
    next outside =>
    exact ⟨barred_goTo taken alone rfl (by rw [outside]; rfl) rfl (by simp [outside, inMake]), rfl⟩
  | copy owner receiver id =>
    simp [DynSingleton.step, alone] at fired
  | release thread id =>
    simp [DynSingleton.step, alone] at fired
  | advance thread =>
    have before := active thread rfl
    simp only [DynSingleton.step] at fired
    cases here : singleton.places thread with
    | outside =>
      rw [here] at fired
      cases fired
    | probing | relocking =>
      rw [here] at fired
      simp only [DynSingleton.advance, lock_none alone] at fired
      cases fired
      exact ⟨barred_goTo taken alone rfl before rfl (fun _ => rfl), rfl⟩
    | entering | starting =>
      rw [here] at fired
      simp only [DynSingleton.advance] at fired
      split at fired <;> cases fired
      exact ⟨barred_goTo taken alone rfl before rfl (fun _ => rfl), rfl⟩
    | testing =>
      rw [here, DynSingleton.advance, if_pos taken] at fired
      cases fired
      exact ⟨barred_goTo taken alone rfl before rfl (fun _ => rfl), rfl⟩
    | waiting =>
      rw [here] at fired
      cases fired
      exact ⟨barred_goTo taken alone rfl before rfl (fun _ => rfl), rfl⟩
    | _ =>
      rw [here] at before
      cases before

end Barred

end Rpcz.BarredSingleton
