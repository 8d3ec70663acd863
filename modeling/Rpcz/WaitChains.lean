import Mathlib.Logic.Function.Basic
import Mathlib.Logic.Relation
import Mathlib.Order.WellFoundedSet

/-!
Parties that wait for one another, each for one other at most. A new wait keeps
the waits free of circles exactly if its target does not reach the party that
begins to wait. In finitely many waits without a circle every chain ends at a
party that does not wait; on a circle nobody is the first to stop.
-/

namespace Rpcz.WaitChains
open Relation

variable {Party : Type*} {waits later : Party → Option Party} {first last other party : Party}

def WaitsFor (waits : Party → Option Party) (first second : Party) : Prop :=
  waits first = some second

/-- `last` is on the chain that begins at `first`. -/
def Reaches (waits : Party → Option Party) : Party → Party → Prop :=
  ReflTransGen (WaitsFor waits)

def Circular (waits : Party → Option Party) (party : Party) : Prop :=
  TransGen (WaitsFor waits) party party

def Acyclic (waits : Party → Option Party) : Prop := ∀ party, ¬ Circular waits party

theorem acyclic_none : Acyclic (fun _ : Party => none) := by
  intro party circle
  obtain ⟨next, edge, -⟩ := TransGen.head'_iff.mp circle
  cases edge

theorem Acyclic.mono (acyclic : Acyclic waits)
    (fewer : ∀ first second, later first = some second → waits first = some second) :
    Acyclic later :=
  fun party circle => acyclic party (TransGen.mono fewer _ _ circle)

section Wait
variable [DecidableEq Party]

/-- A path that uses the new wait goes to the party that waits and on from its target. -/
theorem path_update {second : Party}
    (path : TransGen (WaitsFor (Function.update waits party (some other))) first second) :
    TransGen (WaitsFor waits) first second ∨
      (Reaches waits first party ∧ Reaches waits other second) := by
  have edges : ∀ {x y}, WaitsFor (Function.update waits party (some other)) x y →
      (x = party ∧ y = other) ∨ WaitsFor waits x y := by
    intro x y edge
    by_cases here : x = party
    · subst here
      rw [WaitsFor, Function.update_self, Option.some.injEq] at edge
      exact .inl ⟨rfl, edge.symm⟩
    · rw [WaitsFor, Function.update_of_ne here] at edge
      exact .inr edge
  induction path with
  | single edge =>
    rcases edges edge with ⟨rfl, rfl⟩ | old
    · exact .inr ⟨.refl, .refl⟩
    · exact .inl (.single old)
  | tail path edge ih =>
    rcases edges edge with ⟨rfl, rfl⟩ | old
    · rcases ih with before | ⟨before, -⟩
      · exact .inr ⟨before.to_reflTransGen, .refl⟩
      · exact .inr ⟨before, .refl⟩
    · rcases ih with before | ⟨before, after⟩
      · exact .inl (before.tail old)
      · exact .inr ⟨before, after.tail old⟩

theorem Acyclic.wait (acyclic : Acyclic waits) (apart : ¬ Reaches waits other party) :
    Acyclic (Function.update waits party (some other)) := by
  intro start circle
  rcases path_update circle with old | ⟨before, after⟩
  · exact acyclic start old
  · exact apart (after.trans before)

theorem circular_of_wait (free : waits party = none) (back : Reaches waits other party) :
    Circular (Function.update waits party (some other)) party := by
  have kept : ∀ {start}, Reaches waits start party →
      Reaches (Function.update waits party (some other)) start party := by
    intro start path
    induction path using ReflTransGen.head_induction_on with
    | refl => exact .refl
    | head edge path ih =>
      refine .head ?_ ih
      rw [WaitsFor, Function.update_of_ne]
      · exact edge
      · rintro rfl
        rw [WaitsFor, free] at edge
        cases edge
  exact TransGen.head' (Function.update_self ..) (kept back)

end Wait

theorem Circular.waiting (circle : Circular waits party) : ∃ next, waits party = some next := by
  obtain ⟨next, edge, -⟩ := TransGen.head'_iff.mp circle
  exact ⟨next, edge⟩

theorem Circular.next (circle : Circular waits party) (edge : waits party = some other) :
    Circular waits other := by
  obtain ⟨next, first, rest⟩ := TransGen.head'_iff.mp circle
  have same : other = next := Option.some.inj (edge.symm.trans first)
  subst same
  exact TransGen.tail' rest edge

theorem Circular.persists (circle : Circular waits party)
    (kept : ∀ member, Circular waits member → later member = waits member) :
    Circular later party := by
  have path : ∀ {start}, TransGen (WaitsFor waits) start party → Circular waits start →
      TransGen (WaitsFor later) start party := by
    intro start path
    induction path using TransGen.head_induction_on with
    | single edge =>
      intro around
      exact .single ((kept _ around).trans edge)
    | head edge rest ih =>
      intro around
      exact .head ((kept _ around).trans edge) (ih (around.next edge))
  exact path circle circle

/-- With finitely many waits and no circle every chain ends. -/
theorem Acyclic.ends (acyclic : Acyclic waits) (finite : {party | waits party ≠ none}.Finite)
    (start : Party) : ∃ last, Reaches waits start last ∧ waits last = none := by
  have order : IsStrictOrder Party (fun second first => TransGen (WaitsFor waits) first second) :=
    { irrefl := acyclic
      trans := fun _ _ _ after before => before.trans after }
  have founded : {party | waits party ≠ none}.WellFoundedOn
      (fun second first => TransGen (WaitsFor waits) first second) := finite.wellFoundedOn
  have waiting : ∀ party, waits party ≠ none →
      ∃ last, Reaches waits party last ∧ waits last = none := by
    intro party member
    refine founded.induction (P := fun party =>
      ∃ last, Reaches waits party last ∧ waits last = none) member (fun party member ih => ?_)
    obtain ⟨next, edge⟩ := Option.ne_none_iff_exists'.mp member
    by_cases stops : waits next = none
    · exact ⟨next, .single edge, stops⟩
    · obtain ⟨last, path, ended⟩ := ih next stops (.single edge)
      exact ⟨last, .head edge path, ended⟩
  by_cases free : waits start = none
  · exact ⟨start, .refl, free⟩
  · exact waiting start free

end Rpcz.WaitChains
