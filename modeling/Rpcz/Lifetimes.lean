import Rpcz.Automaton
import Mathlib.Data.List.Perm.Basic
import Mathlib.Data.List.Nodup

/-!
Objects that a program allocates, uses and deletes. What a program does is free
of errors if it is a run of the machine below. A program is proved so by parts:
each part takes what it holds before to what it holds after, whatever else is
alive.
-/

namespace Rpcz.Lifetimes
open Automaton

universe u

inductive Op (Object : Type u) where
  | new (object : Object)
  | use (object : Object)
  | delete (object : Object)
deriving DecidableEq

/-- `known` are all objects there ever were. -/
structure Heap (Object : Type u) where
  live : List Object
  known : List Object

variable {Object : Type u}

section Definitions
variable [DecidableEq Object]

def Heap.step (heap : Heap Object) : Op Object → Option (Heap Object)
  | .new object =>
    if object ∈ heap.known then none
    else some ⟨object :: heap.live, object :: heap.known⟩
  | .use object => if object ∈ heap.live then some heap else none
  | .delete object =>
    if object ∈ heap.live then some { heap with live := heap.live.erase object } else none

def machine : Machine (Heap Object) (Op Object) (Op Object) where
  start := ⟨[], []⟩
  step heap op := (heap.step op).map fun after => (after, [op])

end Definitions

/-- Nothing is used or deleted before it is allocated or after it is deleted. -/
structure Safe (ops : List (Op Object)) : Prop where
  fresh : ∀ before object rest, ops = before ++ .new object :: rest → .new object ∉ before
  used : ∀ before object rest, ops = before ++ .use object :: rest →
    .new object ∈ before ∧ .delete object ∉ before
  deleted : ∀ before object rest, ops = before ++ .delete object :: rest →
    .new object ∈ before ∧ .delete object ∉ before

structure Records (ops : List (Op Object)) (heap : Heap Object) : Prop where
  known : ∀ object, object ∈ heap.known ↔ .new object ∈ ops
  live : ∀ object, object ∈ heap.live ↔ .new object ∈ ops ∧ .delete object ∉ ops
  distinct : heap.live.Nodup
  later : ∀ object, .delete object ∈ ops → .new object ∈ ops

section Runs
variable [DecidableEq Object] {heap after : Heap Object} {ops emitted : List (Op Object)} {op : Op Object}

theorem step_emits {action : Op Object} (fired : machine.step heap action = some (after, emitted)) :
    emitted = [action] ∧ heap.step action = some after := by
  obtain ⟨next, stepped, same⟩ := Option.map_eq_some_iff.mp fired
  obtain ⟨rfl, rfl⟩ := Prod.mk.inj same
  exact ⟨rfl, stepped⟩

theorem Records.step (records : Records ops heap) (stepped : heap.step op = some after) :
    Records (ops ++ [op]) after := by
  cases op with
  | new object =>
    simp only [Heap.step] at stepped
    split at stepped
    · cases stepped
    · next absent =>
      cases stepped
      have unborn : .new object ∉ ops := fun listed => absent ((records.known object).mpr listed)
      have undead : .delete object ∉ ops := fun listed => unborn (records.later object listed)
      constructor
      · intro other
        simp [records.known, or_comm]
      · intro other
        simp only [List.mem_cons, records.live, List.mem_append, Op.new.injEq, reduceCtorEq,
          List.not_mem_nil, or_false]
        constructor
        · intro known
          rcases known with rfl | old
          · exact ⟨.inr rfl, undead⟩
          · exact ⟨.inl old.1, old.2⟩
        · intro known
          rcases known.1 with old | same
          · exact .inr ⟨old, known.2⟩
          · exact .inl same
      · apply List.nodup_cons.mpr
        exact ⟨fun listed => unborn ((records.live object).mp listed).1, records.distinct⟩
      · intro other listed
        simp only [List.mem_append, List.mem_singleton, reduceCtorEq, or_false] at listed
        exact List.mem_append_left _ (records.later other listed)
  | use object =>
    simp only [Heap.step] at stepped
    split at stepped <;> cases stepped
    constructor
    · simp [records.known]
    · simp [records.live]
    · exact records.distinct
    · intro other listed
      simp only [List.mem_append, List.mem_singleton, reduceCtorEq, or_false] at listed
      exact List.mem_append_left _ (records.later other listed)
  | delete object =>
    simp only [Heap.step] at stepped
    split at stepped
    · next alive =>
      cases stepped
      have born := ((records.live object).mp alive).1
      constructor
      · simp [records.known]
      · intro other
        simp only [records.distinct.mem_erase_iff, records.live, List.mem_append,
          List.mem_singleton, reduceCtorEq, or_false, Op.delete.injEq, not_or]
        tauto
      · exact records.distinct.erase object
      · intro other listed
        simp only [List.mem_append, List.mem_singleton, Op.delete.injEq] at listed
        apply List.mem_append_left
        rcases listed with old | rfl
        · exact records.later other old
        · exact born
    · cases stepped

theorem records_of_run (run : Run machine anyStep ops heap) : Records ops heap := by
  refine run.invariant Records ?_ ?_
  · constructor <;> simp [machine]
  · intro ops heap op emitted after _ records _ fired
    obtain ⟨rfl, stepped⟩ := step_emits fired
    exact records.step stepped

theorem met {before rest : List (Op Object)} (run : Run machine anyStep (before ++ op :: rest) heap) :
    ∃ earlier next, Records before earlier ∧ earlier.step op = some next := by
  obtain ⟨events, pre, post, later, state, action, next, stem, -, fired, left, -, -⟩ := run.occurs
  obtain ⟨same, stepped⟩ := step_emits fired
  cases pre with
  | nil =>
    obtain ⟨rfl, -⟩ := List.cons.inj same
    rw [left, List.append_nil]
    exact ⟨state, next, records_of_run stem, stepped⟩
  | cons first more =>
    have short := congrArg List.length same
    simp at short

theorem safe_of_run (run : Run machine anyStep ops heap) : Safe ops := by
  constructor
  · intro before object rest split
    subst split
    obtain ⟨earlier, next, records, stepped⟩ := met run
    simp only [Heap.step] at stepped
    split at stepped
    · cases stepped
    · next absent => exact fun listed => absent ((records.known object).mpr listed)
  · intro before object rest split
    subst split
    obtain ⟨earlier, next, records, stepped⟩ := met run
    simp only [Heap.step] at stepped
    split at stepped
    · next alive => exact (records.live object).mp alive
    · cases stepped
  · intro before object rest split
    subst split
    obtain ⟨earlier, next, records, stepped⟩ := met run
    simp only [Heap.step] at stepped
    split at stepped
    · next alive => exact (records.live object).mp alive
    · cases stepped

theorem known_of_use (run : Run machine anyStep ops heap) {object : Object}
    (used : .use object ∈ ops) : object ∈ heap.known := by
  obtain ⟨before, rest, split⟩ := List.append_of_mem used
  have born := ((safe_of_run run).used before object rest split).1
  apply (records_of_run run).known object |>.mpr
  rw [split]
  exact List.mem_append_left _ born

end Runs

/-! ## Parts of a program -/

section Parts
variable [DecidableEq Object] {ops first second : List (Op Object)}
  {held kept middle : List Object} {object : Object}

/-- Where a program holds `held`, it may do `ops` and then holds `kept`. The rest
of the heap is left alone, and nothing is allocated. -/
def Does (ops : List (Op Object)) (held kept : List Object) : Prop :=
  ∀ (heap : Heap Object) (rest : List Object), heap.live.Perm (held ++ rest) →
    ∃ after, Steps machine anyStep heap ops after ∧ after.live.Perm (kept ++ rest) ∧
      after.known = heap.known

theorem Does.nothing : Does ([] : List (Op Object)) held held := by
  intro heap rest holds
  exact ⟨heap, .refl, holds, rfl⟩

theorem Does.seq (early : Does first held middle) (late : Does second middle kept) :
    Does (first ++ second) held kept := by
  intro heap rest holds
  obtain ⟨between, one, holding, same⟩ := early heap rest holds
  obtain ⟨after, two, keeps, alike⟩ := late between rest holding
  exact ⟨after, one.trans two, keeps, alike.trans same⟩

/-- What else the program holds does not matter. -/
theorem Does.frame (does : Does ops held kept) (more : List Object) :
    Does ops (held ++ more) (kept ++ more) := by
  intro heap rest holds
  rw [List.append_assoc] at holds
  obtain ⟨after, steps, keeps, same⟩ := does heap (more ++ rest) holds
  refine ⟨after, steps, ?_, same⟩
  rw [List.append_assoc]
  exact keeps

theorem Does.perm (does : Does ops held kept) {given left : List Object} (before : given.Perm held)
    (after : kept.Perm left) : Does ops given left := by
  intro heap rest holds
  obtain ⟨final, steps, keeps, same⟩ := does heap rest (holds.trans (before.append_right rest))
  exact ⟨final, steps, keeps.trans (after.append_right rest), same⟩

theorem does_use (mine : object ∈ held) : Does [.use object] held held := by
  intro heap rest holds
  have alive : object ∈ heap.live := holds.mem_iff.mpr (List.mem_append_left _ mine)
  have stepped : machine.step heap (.use object) = some (heap, [.use object]) := by
    change (heap.step (.use object)).map _ = _
    rw [Heap.step, if_pos alive]
    rfl
  exact ⟨heap, .single trivial stepped, holds, rfl⟩

theorem does_delete : Does [.delete object] [object] [] := by
  intro heap rest holds
  have alive : object ∈ heap.live := holds.mem_iff.mpr List.mem_cons_self
  have stepped : machine.step heap (.delete object) =
      some ({ heap with live := heap.live.erase object }, [.delete object]) := by
    change (heap.step (.delete object)).map _ = _
    rw [Heap.step, if_pos alive]
    rfl
  refine ⟨_, .single trivial stepped, ?_, rfl⟩
  have gone := holds.erase object
  rw [List.singleton_append, List.erase_cons_head] at gone
  exact gone

theorem Does.each {Item : Type*} {items : List Item} {part : Item → List (Op Object)}
    {own : Item → List Object} (does : ∀ item ∈ items, Does (part item) (own item) []) :
    Does (items.flatMap part) (items.flatMap own) [] := by
  induction items with
  | nil => exact .nothing
  | cons item items ih =>
    have here : Does (part item) (own item ++ items.flatMap own) (items.flatMap own) :=
      (does item List.mem_cons_self).frame _
    exact here.seq (ih fun other listed => does other (List.mem_cons_of_mem item listed))

theorem does_deletes (objects : List Object) : Does (objects.map .delete) objects [] := by
  induction objects with
  | nil => exact .nothing
  | cons object objects ih =>
    have first : Does [.delete object] ([object] ++ objects) objects := does_delete.frame _
    exact first.seq ih

theorem does_uses {objects : List Object} (mine : objects ⊆ held) :
    Does (objects.map .use) held held := by
  induction objects with
  | nil => exact .nothing
  | cons object objects ih =>
    have first : Does [.use object] held held := does_use (mine List.mem_cons_self)
    exact first.seq (ih fun other listed => mine (List.mem_cons_of_mem object listed))

theorem new_steps {heap : Heap Object} (fresh : object ∉ heap.known) :
    Steps machine anyStep heap [.new object] ⟨object :: heap.live, object :: heap.known⟩ := by
  apply Steps.single trivial
  change (heap.step (.new object)).map _ = _
  rw [Heap.step, if_neg fresh]
  rfl

end Parts

end Rpcz.Lifetimes
