import Rpcz.Automaton
import Rpcz.ReactorLoop
import Mathlib.Algebra.Group.Int.Defs
import Mathlib.Algebra.Group.Nat.Defs
import Mathlib.Data.List.Nodup

/-!
Histories of `run_closure_at` and `process_closure_run_map`. The closures are
numbered in the order they are registered. The map keeps them sorted by their
timestamps and, under one timestamp, in the order of registration.
-/

namespace Rpcz.TimerPasses
open Automaton ReactorLoop

variable {Timer : Type}

/-- The closures of the map with their timestamps, in the order they are stored. -/
def entries (closures : List (UInt64 × List Timer)) : List (UInt64 × Timer) :=
  closures.flatMap (fun entry => entry.2.map (fun timer => (entry.1, timer)))

/-- The keys ascend, and no vector is empty. -/
structure Sorted (closures : List (UInt64 × List Timer)) : Prop where
  ascending : closures.Pairwise (fun first second => first.1 < second.1)
  filled : ∀ entry ∈ closures, entry.2 ≠ []

@[simp] theorem entries_cons (entry : UInt64 × List Timer) (rest : List (UInt64 × List Timer)) :
    entries (entry :: rest) = entry.2.map (fun timer => (entry.1, timer)) ++ entries rest := by
  simp [entries]

theorem mem_entries_key {closures : List (UInt64 × List Timer)} {pair : UInt64 × Timer}
    (member : pair ∈ entries closures) : ∃ entry ∈ closures, entry.1 = pair.1 := by
  obtain ⟨entry, inside, held⟩ := List.mem_flatMap.mp member
  obtain ⟨timer, -, rfl⟩ := List.mem_map.mp held
  exact ⟨entry, inside, rfl⟩

theorem timersIn_entries (closures : List (UInt64 × List Timer)) :
    timersIn closures = (entries closures).map Prod.snd := by
  simp [timersIn, entries, List.map_flatMap, Function.comp_def]

theorem mem_insert {timestamp : UInt64} {closure : Timer} {closures : List (UInt64 × List Timer)}
    {pair : UInt64 × Timer} : pair ∈ entries (insertClosure timestamp closure closures) ↔
      pair = (timestamp, closure) ∨ pair ∈ entries closures := by
  induction closures with
  | nil => simp [insertClosure, entries]
  | cons entry rest ih =>
    obtain ⟨key, held⟩ := entry
    rw [insertClosure]
    split
    · simp
    · split
      · next same =>
        subst same
        simp only [entries_cons, List.map_append, List.map_cons, List.map_nil, List.mem_append,
          List.mem_singleton]
        tauto
      · simp only [entries_cons, List.mem_append, ih]
        tauto

theorem sorted_insert {timestamp : UInt64} {closure : Timer}
    {closures : List (UInt64 × List Timer)} (sorted : Sorted closures) :
    Sorted (insertClosure timestamp closure closures) := by
  induction closures with
  | nil => exact ⟨List.pairwise_singleton _ _, by simp [insertClosure]⟩
  | cons entry rest ih =>
    obtain ⟨key, held⟩ := entry
    obtain ⟨behind, ascending⟩ := List.pairwise_cons.mp sorted.ascending
    have filledRest : ∀ entry ∈ rest, entry.2 ≠ [] :=
      fun entry member => sorted.filled entry (List.mem_cons_of_mem _ member)
    have later := ih ⟨ascending, filledRest⟩
    rw [insertClosure]
    split
    · next below =>
      constructor
      · refine List.pairwise_cons.mpr ⟨fun entry member => ?_, sorted.ascending⟩
        rcases List.mem_cons.mp member with rfl | inside
        · exact below
        · exact UInt64.lt_trans below (behind entry inside)
      · intro entry member
        rcases List.mem_cons.mp member with rfl | inside
        · simp
        · exact sorted.filled entry inside
    · split
      · next same =>
        constructor
        · exact List.pairwise_cons.mpr ⟨behind, ascending⟩
        · intro entry member
          rcases List.mem_cons.mp member with rfl | inside
          · simp
          · exact filledRest entry inside
      · next notBelow different =>
        constructor
        · refine List.pairwise_cons.mpr ⟨fun entry member => ?_, later.ascending⟩
          obtain ⟨timer, shown⟩ := List.exists_mem_of_ne_nil _ (later.filled entry member)
          have pair : (entry.1, timer) ∈ entries (insertClosure timestamp closure rest) :=
            List.mem_flatMap.mpr ⟨entry, member, List.mem_map_of_mem shown⟩
          rcases mem_insert.mp pair with same | old
          · obtain ⟨here, -⟩ := Prod.mk.inj same
            rw [here]
            exact UInt64.lt_of_le_of_ne (UInt64.not_lt.mp notBelow) (Ne.symm different)
          · obtain ⟨other, inside, key⟩ := mem_entries_key old
            exact key ▸ behind other inside
        · intro entry member
          rcases List.mem_cons.mp member with rfl | inside
          · exact sorted.filled _ (List.mem_cons_self ..)
          · exact later.filled entry inside

/-- The order of the map: by timestamp, then by registration. -/
def Earlier (first second : UInt64 × Nat) : Prop :=
  first.1 < second.1 ∨ first.1 = second.1 ∧ first.2 < second.2

theorem earlier_insert {timestamp : UInt64} {closure : Nat} {closures : List (UInt64 × List Nat)}
    (sorted : Sorted closures) (ordered : (entries closures).Pairwise Earlier)
    (newest : ∀ pair ∈ entries closures, pair.2 < closure) :
    (entries (insertClosure timestamp closure closures)).Pairwise Earlier := by
  induction closures with
  | nil => simp [insertClosure, entries]
  | cons entry rest ih =>
    obtain ⟨key, held⟩ := entry
    obtain ⟨behind, ascending⟩ := List.pairwise_cons.mp sorted.ascending
    rw [insertClosure]
    split
    · next below =>
      rw [entries_cons]
      refine List.pairwise_cons.mpr ⟨fun pair member => .inl ?_, ordered⟩
      obtain ⟨entry, inside, same⟩ := mem_entries_key member
      rw [← same]
      rcases List.mem_cons.mp inside with rfl | later
      · exact below
      · exact UInt64.lt_trans below (behind entry later)
    · rw [entries_cons] at ordered newest
      obtain ⟨front, back, across⟩ := List.pairwise_append.mp ordered
      split
      · next same =>
        subst same
        rw [entries_cons, List.map_append, List.append_assoc]
        refine List.pairwise_append.mpr ⟨front, ?_, ?_⟩
        · refine List.pairwise_cons.mpr ⟨fun pair member => .inl ?_, back⟩
          obtain ⟨entry, inside, same⟩ := mem_entries_key member
          exact same ▸ behind entry inside
        · intro pair member other added
          rcases List.mem_cons.mp added with rfl | old
          · obtain ⟨timer, -, rfl⟩ := List.mem_map.mp member
            exact .inr ⟨rfl, newest _ (List.mem_append_left _ member)⟩
          · exact across pair member other old
      · next notBelow different =>
        have filledRest : ∀ entry ∈ rest, entry.2 ≠ [] :=
          fun entry member => sorted.filled entry (List.mem_cons_of_mem _ member)
        rw [entries_cons]
        refine List.pairwise_append.mpr ⟨front, ?_, ?_⟩
        · exact ih ⟨ascending, filledRest⟩ back
            (fun pair member => newest pair (List.mem_append_right _ member))
        · intro pair member other inserted
          rcases mem_insert.mp inserted with rfl | old
          · obtain ⟨timer, -, rfl⟩ := List.mem_map.mp member
            exact .inl (UInt64.lt_of_le_of_ne (UInt64.not_lt.mp notBelow) (Ne.symm different))
          · exact across pair member other old

theorem entries_pass {closures : List (UInt64 × List Timer)} (sorted : Sorted closures)
    (now : UInt64) :
    due now closures = ((entries closures).filter (fun pair => pair.1 ≤ now)).map Prod.snd ∧
      entries (notDue now closures) =
        (entries closures).filter (fun pair => ¬ pair.1 ≤ now) ∧
      Sorted (notDue now closures) := by
  induction closures with
  | nil => exact ⟨rfl, rfl, sorted⟩
  | cons entry rest ih =>
    obtain ⟨key, held⟩ := entry
    obtain ⟨behind, ascending⟩ := List.pairwise_cons.mp sorted.ascending
    have filledRest : ∀ entry ∈ rest, entry.2 ≠ [] :=
      fun entry member => sorted.filled entry (List.mem_cons_of_mem _ member)
    obtain ⟨ran, left, still⟩ := ih ⟨ascending, filledRest⟩
    by_cases reached : key ≤ now
    · refine ⟨?_, ?_, ?_⟩
      · simp only [due, decide_eq_true reached, List.takeWhile_cons_of_pos, List.flatMap_cons,
          entries_cons, List.filter_append, List.map_append, List.filter_map] at ran ⊢
        rw [ran]
        simp [Function.comp_def, reached]
      · simp only [notDue, decide_eq_true reached, List.dropWhile_cons_of_pos, entries_cons,
          List.filter_append, List.filter_map] at left ⊢
        rw [left]
        simp [Function.comp_def, reached]
      · simpa [notDue, reached] using still
    · have late : ∀ pair ∈ entries ((key, held) :: rest), ¬ pair.1 ≤ now := by
        intro pair member
        obtain ⟨entry, inside, same⟩ := mem_entries_key member
        rw [← same, UInt64.not_le]
        rw [UInt64.not_le] at reached
        rcases List.mem_cons.mp inside with rfl | later
        · exact reached
        · exact UInt64.lt_trans reached (behind entry later)
      have whole : notDue now ((key, held) :: rest) = (key, held) :: rest := by
        simp [notDue, reached]
      refine ⟨?_, ?_, by rw [whole]; exact sorted⟩
      · rw [List.filter_eq_nil_iff.mpr (fun pair member => by simpa using late pair member)]
        simp [due, reached]
      · rw [whole, List.filter_eq_self.mpr (fun pair member => by simpa using late pair member)]

theorem toInt_toInt64 (word : UInt64) : word.toInt64.toInt =
    if word.toNat < 2 ^ 63 then (word.toNat : Int) else word.toNat - 2 ^ 64 := by
  have size := word.toNat_lt
  have same : word.toBitVec.toNat = word.toNat := rfl
  change BitVec.toInt word.toBitVec = _
  rw [BitVec.toInt_eq_toNat_cond]
  split <;> split <;> omega

/-- The reactor's timers, before and after `~reactor`. -/
structure Timers where
  reactor : Reactor Unit Unit Nat
  registered : Nat
  destroyed : Bool

inductive Action where
  | runClosureAt (timestamp : UInt64)
  | process (now : UInt64)
  | destroy
deriving DecidableEq

inductive Event where
  | registered (closure : Nat) (timestamp : UInt64)
  /-- One pass with its clock reading, the closures it ran and the value it returned. -/
  | passed (now : UInt64) (ran : List Nat) (timeout : Int64)
  | destroyed (deleted : List Nat)
deriving DecidableEq

def Timers.new : Timers := ⟨⟨false, false, [], [], [], [], []⟩, 0, false⟩

def Timers.step (timers : Timers) : Action → Option (Timers × List Event)
  | .runClosureAt timestamp =>
    if timers.destroyed then none
    else some ({ timers with
        reactor := timers.reactor.runClosureAt timestamp timers.registered
        registered := timers.registered + 1 }, [.registered timers.registered timestamp])
  | .process now =>
    if timers.destroyed then none
    else
      let processed := timers.reactor.processClosureRunMap now
      some ({ timers with reactor := processed.1 },
        [.passed now processed.2 (pollTimeout now timers.reactor.closureRunMap)])
  | .destroy =>
    if timers.destroyed then none
    else some ({ timers with destroyed := true },
      [.destroyed (timersIn timers.reactor.closureRunMap)])

def machine : Machine Timers Action Event := ⟨Timers.new, Timers.step⟩

inductive Turn (timers : Timers) : Action → Timers → Event → Prop where
  | register (alive : timers.destroyed = false) (timestamp : UInt64) :
      Turn timers (.runClosureAt timestamp)
        { timers with
          reactor := timers.reactor.runClosureAt timestamp timers.registered
          registered := timers.registered + 1 } (.registered timers.registered timestamp)
  | pass (alive : timers.destroyed = false) (now : UInt64) :
      Turn timers (.process now)
        { timers with reactor := (timers.reactor.processClosureRunMap now).1 }
        (.passed now (due now timers.reactor.closureRunMap)
          (pollTimeout now timers.reactor.closureRunMap))
  | destroy (alive : timers.destroyed = false) :
      Turn timers .destroy { timers with destroyed := true }
        (.destroyed (timersIn timers.reactor.closureRunMap))

theorem step_turn {timers after : Timers} {action : Action} {emitted : List Event}
    (fired : machine.step timers action = some (after, emitted)) :
    ∃ event, emitted = [event] ∧ Turn timers action after event := by
  change timers.step action = _ at fired
  cases action <;> simp only [Timers.step] at fired <;> split at fired
  case runClosureAt.isFalse timestamp alive =>
    obtain ⟨rfl, rfl⟩ := Prod.mk.inj (Option.some.inj fired)
    exact ⟨_, rfl, .register (by simpa using alive) timestamp⟩
  case process.isFalse now alive =>
    obtain ⟨rfl, rfl⟩ := Prod.mk.inj (Option.some.inj fired)
    exact ⟨_, rfl, .pass (by simpa using alive) now⟩
  case destroy.isFalse alive =>
    obtain ⟨rfl, rfl⟩ := Prod.mk.inj (Option.some.inj fired)
    exact ⟨_, rfl, .destroy (by simpa using alive)⟩
  all_goals cases fired

theorem turn_of_event {before rest : List Event} {event : Event} {final : Timers}
    (run : Run machine anyStep (before ++ event :: rest) final) :
    ∃ timers action after, Run machine anyStep before timers ∧ Turn timers action after event := by
  obtain ⟨earlier, pre, post, later, state, action, after, steps, -, fired, left, -, -⟩ :=
    run.occurs
  obtain ⟨only, single, turn⟩ := step_turn fired
  have alone : pre = [] := by
    have size := congrArg List.length single
    simp at size
    exact List.length_eq_zero_iff.mp (by omega)
  subst alone
  obtain ⟨rfl, -⟩ := List.cons.inj single
  rw [List.append_nil] at left
  exact ⟨state, action, after, left ▸ steps, turn⟩

/-- A registered closure that no pass since was late enough for. -/
def Pending (events : List Event) (closure : Nat) (timestamp : UInt64) : Prop :=
  ∃ before after, events = before ++ .registered closure timestamp :: after ∧
    ∀ now ran timeout, .passed now ran timeout ∈ after → now < timestamp

def registrations (events : List Event) : List Nat :=
  events.filterMap fun
    | .registered closure _ => some closure
    | _ => none

@[simp] theorem registrations_append (first second : List Event) :
    registrations (first ++ second) = registrations first ++ registrations second :=
  List.filterMap_append ..

theorem mem_registrations {events : List Event} {closure : Nat} {timestamp : UInt64}
    (member : .registered closure timestamp ∈ events) : closure ∈ registrations events :=
  List.mem_filterMap.mpr ⟨_, member, rfl⟩

theorem registered_once {before after other rest : List Event} {closure : Nat}
    {timestamp stamp : UInt64}
    (once : (registrations (before ++ .registered closure timestamp :: after)).Nodup)
    (same : before ++ .registered closure timestamp :: after =
      other ++ .registered closure stamp :: rest) :
    other = before ∧ stamp = timestamp ∧ rest = after := by
  rw [registrations_append, List.nodup_append] at once
  have unused : closure ∉ registrations before := fun member =>
    once.2.2 _ member _ (List.mem_filterMap.mpr ⟨_, List.mem_cons_self .., rfl⟩) rfl
  have last : closure ∉ registrations after := by
    have tail : registrations (.registered closure timestamp :: after) =
        closure :: registrations after := rfl
    rw [tail, List.nodup_cons] at once
    exact once.2.1.1
  rcases append_split same with ⟨gap, left, -⟩ | ⟨pre, left, right⟩
  · have member : .registered closure stamp ∈ before := by simp [left]
    exact absurd (mem_registrations member) unused
  · cases pre with
    | nil =>
      obtain ⟨head, tail⟩ := List.cons.inj right
      cases head
      exact ⟨by simpa using left, rfl, tail.symm⟩
    | cons head tail =>
      obtain ⟨-, back⟩ := List.cons.inj right
      have member : .registered closure stamp ∈ after := by simp [back]
      exact absurd (mem_registrations member) last

section Steps
variable {events : List Event} {timers : Timers} {closure : Nat} {timestamp : UInt64}

theorem Pending.registered (pending : Pending events closure timestamp) :
    .registered closure timestamp ∈ events := by
  obtain ⟨before, after, rfl, -⟩ := pending
  simp

theorem pending_register {other : Nat} {stamp : UInt64} :
    Pending (events ++ [.registered other stamp]) closure timestamp ↔
      (timestamp, closure) = (stamp, other) ∨ Pending events closure timestamp := by
  constructor
  · rintro ⟨before, after, whole, late⟩
    rcases append_split whole with ⟨rest, left, rfl⟩ | ⟨pre, left, right⟩
    · exact .inr ⟨before, rest, left,
        fun now ran timeout member => late now ran timeout (List.mem_append_left _ member)⟩
    · have alone : pre = [] := by
        have size := congrArg List.length right
        simp at size
        exact List.length_eq_zero_iff.mp (by omega)
      subst alone
      obtain ⟨head, -⟩ := List.cons.inj right
      cases head
      exact .inl rfl
  · rintro (same | ⟨before, after, rfl, late⟩)
    · obtain ⟨rfl, rfl⟩ := Prod.mk.inj same
      exact ⟨events, [], rfl, by simp⟩
    · refine ⟨before, after ++ [.registered other stamp], by simp, fun now ran timeout member => ?_⟩
      simp only [List.mem_append, List.mem_singleton, reduceCtorEq, or_false] at member
      exact late now ran timeout member

theorem pending_pass {now : UInt64} {ran : List Nat} {timeout : Int64} :
    Pending (events ++ [.passed now ran timeout]) closure timestamp ↔
      Pending events closure timestamp ∧ ¬ timestamp ≤ now := by
  constructor
  · rintro ⟨before, after, whole, late⟩
    rcases append_split whole with ⟨rest, left, rfl⟩ | ⟨pre, left, right⟩
    · refine ⟨⟨before, rest, left, fun now ran timeout member =>
        late now ran timeout (List.mem_append_left _ member)⟩, ?_⟩
      exact UInt64.not_le.mpr (late now ran timeout (by simp))
    · have alone : pre = [] := by
        have size := congrArg List.length right
        simp at size
        exact List.length_eq_zero_iff.mp (by omega)
      subst alone
      obtain ⟨head, -⟩ := List.cons.inj right
      cases head
  · rintro ⟨⟨before, after, rfl, late⟩, early⟩
    refine ⟨before, after ++ [.passed now ran timeout], by simp, ?_⟩
    intro reading closures value member
    rcases List.mem_append.mp member with old | new
    · exact late reading closures value old
    · cases List.mem_singleton.mp new
      exact UInt64.not_le.mp early

structure Timed (events : List Event) (timers : Timers) : Prop where
  sorted : Sorted timers.reactor.closureRunMap
  ordered : (entries timers.reactor.closureRunMap).Pairwise Earlier
  numbered : registrations events = List.range timers.registered
  held : timers.destroyed = false → ∀ closure timestamp,
    (timestamp, closure) ∈ entries timers.reactor.closureRunMap ↔ Pending events closure timestamp
  below : ∀ pair ∈ entries timers.reactor.closureRunMap, pair.2 < timers.registered

theorem timed_of_run (run : Run machine anyStep events timers) : Timed events timers := by
  refine Steps.invariant Timed ?_ ?_ run
  · refine ⟨⟨List.Pairwise.nil, by simp [machine, Timers.new]⟩, List.Pairwise.nil, rfl, ?_, ?_⟩
    · simp [machine, Timers.new, entries, Pending]
    · simp [machine, Timers.new, entries]
  · intro events timers action emitted after _ timed _ fired
    obtain ⟨event, rfl, turn⟩ := step_turn fired
    cases turn with
    | register alive timestamp =>
      refine ⟨sorted_insert timed.sorted,
        earlier_insert timed.sorted timed.ordered timed.below, ?_, ?_, ?_⟩
      · rw [registrations_append, timed.numbered, List.range_succ]
        rfl
      · intro _ closure stamp
        rw [pending_register, ← timed.held alive]
        exact mem_insert
      · intro pair member
        rcases mem_insert.mp member with rfl | old
        · exact Nat.lt_succ_self _
        · exact Nat.lt_succ_of_lt (timed.below pair old)
    | pass alive now =>
      obtain ⟨-, left, still⟩ := entries_pass timed.sorted now
      refine ⟨still, ?_, ?_, ?_, ?_⟩
      · simp only [Reactor.processClosureRunMap, left]
        exact timed.ordered.filter _
      · rw [registrations_append, timed.numbered]
        simp [registrations]
      · intro _ closure stamp
        rw [pending_pass, ← timed.held alive]
        simp only [Reactor.processClosureRunMap, left, List.mem_filter, decide_eq_true_eq]
      · intro pair member
        simp only [Reactor.processClosureRunMap, left] at member
        exact timed.below pair (List.mem_of_mem_filter member)
    | destroy alive =>
      refine ⟨timed.sorted, timed.ordered, ?_, fun gone => by simp at gone, timed.below⟩
      rw [registrations_append, timed.numbered]
      simp [registrations]

theorem Timed.unique (timed : Timed events timers) {before after : List Event}
    (whole : events = before ++ .registered closure timestamp :: after) {stamp : UInt64} :
    Pending events closure stamp ↔
      stamp = timestamp ∧ ∀ now ran timeout, .passed now ran timeout ∈ after → now < timestamp := by
  have once : (registrations (before ++ .registered closure timestamp :: after)).Nodup := by
    rw [← whole, timed.numbered]
    exact List.nodup_range
  constructor
  · rintro ⟨other, rest, same, late⟩
    obtain ⟨rfl, rfl, rfl⟩ := registered_once once (whole.symm.trans same)
    exact ⟨rfl, late⟩
  · rintro ⟨rfl, late⟩
    exact ⟨before, after, whole, late⟩

theorem Timed.once (timed : Timed events timers) (alive : timers.destroyed = false) :
    ((entries timers.reactor.closureRunMap).map Prod.snd).Nodup := by
  have distinct : (entries timers.reactor.closureRunMap).Nodup := by
    refine timed.ordered.imp (fun {first second} earlier => ?_)
    rintro rfl
    rcases earlier with below | ⟨-, below⟩
    · exact UInt64.lt_irrefl _ below
    · exact Nat.lt_irrefl _ below
  refine List.Nodup.map_on (fun first here second there same => ?_) distinct
  obtain ⟨before, after, whole, late⟩ := (timed.held alive first.2 first.1).mp here
  have other := (timed.held alive second.2 second.1).mp there
  rw [← same] at other
  have stamps := ((timed.unique whole).mp other).1
  exact Prod.ext stamps.symm same

theorem Timed.waiting (timed : Timed events timers) (alive : timers.destroyed = false)
    (closure : Nat) : closure ∈ timersIn timers.reactor.closureRunMap ↔
      ∃ timestamp, Pending events closure timestamp := by
  rw [timersIn_entries]
  constructor
  · intro member
    obtain ⟨pair, inside, rfl⟩ := List.mem_map.mp member
    exact ⟨pair.1, (timed.held alive _ _).mp inside⟩
  · rintro ⟨timestamp, pending⟩
    exact List.mem_map.mpr ⟨_, (timed.held alive _ _).mpr pending, rfl⟩

/-- The value a pass returns: `-1` if nothing is left, else the time to the
earliest timestamp left, taken in 64 bits. -/
theorem pollTimeout_entries {closures : List (UInt64 × List Nat)} (sorted : Sorted closures)
    (now : UInt64) :
    (entries (notDue now closures) = [] → pollTimeout now closures = -1) ∧
      ∀ pair ∈ entries (notDue now closures),
        (∀ other ∈ entries (notDue now closures), pair.1 ≤ other.1) →
          pollTimeout now closures = (pair.1 - now).toInt64 := by
  obtain ⟨-, -, still⟩ := entries_pass sorted now
  rw [pollTimeout]
  generalize notDue now closures = left at still ⊢
  cases left with
  | nil => exact ⟨fun _ => rfl, by simp [entries]⟩
  | cons entry rest =>
    obtain ⟨timer, shown⟩ := List.exists_mem_of_ne_nil _ (still.filled entry (List.mem_cons_self ..))
    have first : (entry.1, timer) ∈ entries (entry :: rest) := by
      rw [entries_cons]
      exact List.mem_append_left _ (List.mem_map_of_mem shown)
    constructor
    · intro empty
      rw [empty] at first
      cases first
    · intro pair member least
      have front : entry.1 ≤ pair.1 := by
        obtain ⟨other, inside, same⟩ := mem_entries_key member
        rw [← same]
        rcases List.mem_cons.mp inside with rfl | later
        · exact UInt64.le_refl _
        · exact UInt64.le_of_lt ((List.pairwise_cons.mp still.ascending).1 other later)
      have same : entry.1 = pair.1 := UInt64.le_antisymm front (least _ first)
      simp only [same]

theorem Timed.remaining (timed : Timed events timers) (alive : timers.destroyed = false)
    {now : UInt64} {ran : List Nat} {timeout : Int64} :
    Pending (events ++ [.passed now ran timeout]) closure timestamp ↔
      (timestamp, closure) ∈ entries (notDue now timers.reactor.closureRunMap) := by
  rw [pending_pass, ← timed.held alive, (entries_pass timed.sorted now).2.1, List.mem_filter,
    decide_eq_true_eq]

theorem Timed.timeout (timed : Timed events timers) (alive : timers.destroyed = false)
    {now : UInt64} {ran : List Nat} {value : Int64}
    (pending : Pending (events ++ [.passed now ran value]) closure timestamp)
    (least : ∀ other stamp, Pending (events ++ [.passed now ran value]) other stamp →
      timestamp ≤ stamp) :
    pollTimeout now timers.reactor.closureRunMap = (timestamp - now).toInt64 := by
  have member := (timed.remaining alive).mp pending
  refine (pollTimeout_entries timed.sorted now).2 _ member (fun other inside => ?_)
  exact least other.2 other.1 ((timed.remaining alive).mpr inside)

structure FiredInTurn (before : List Event) (now : UInt64) (ran : List Nat) (timeout : Int64) :
    Prop where
  /-- Only registered closures run. -/
  registered : ∀ closure ∈ ran, ∃ timestamp, .registered closure timestamp ∈ before
  /-- A closure runs in the first pass that is not too early for it, and in no other. -/
  first : ∀ earlier closure timestamp mid,
    before = earlier ++ .registered closure timestamp :: mid →
      (closure ∈ ran ↔ timestamp ≤ now ∧
        ∀ reading closures value, .passed reading closures value ∈ mid → reading < timestamp)
  once : ran.Nodup
  /-- In the order of the timestamps, then of registration. -/
  order : ran.Pairwise (fun first second => ∃ one two, .registered first one ∈ before ∧
    .registered second two ∈ before ∧ (one < two ∨ one = two ∧ first < second))
  /-- Nothing is left to wait for. -/
  idle : (∀ closure timestamp, ¬ Pending (before ++ [.passed now ran timeout]) closure timestamp) →
    timeout = -1
  /-- The loop sleeps until the earliest timestamp that is left. -/
  sleeps : ∀ closure timestamp, Pending (before ++ [.passed now ran timeout]) closure timestamp →
    (∀ other stamp, Pending (before ++ [.passed now ran timeout]) other stamp → timestamp ≤ stamp) →
      timestamp.toNat - now.toNat < 2 ^ 63 →
        timeout.toInt = (timestamp.toNat : Int) - now.toNat ∧ 0 < timeout.toInt

theorem firedInTurn_of_timed (timed : Timed events timers) (alive : timers.destroyed = false)
    (now : UInt64) : FiredInTurn events now (due now timers.reactor.closureRunMap)
      (pollTimeout now timers.reactor.closureRunMap) := by
  have ran := (entries_pass timed.sorted now).1
  have inside : ∀ closure, closure ∈ due now timers.reactor.closureRunMap ↔
      ∃ timestamp, Pending events closure timestamp ∧ timestamp ≤ now := by
    intro closure
    rw [ran]
    simp only [List.mem_map, List.mem_filter, decide_eq_true_eq]
    constructor
    · rintro ⟨pair, ⟨member, reached⟩, rfl⟩
      exact ⟨pair.1, (timed.held alive _ _).mp member, reached⟩
    · rintro ⟨timestamp, pending, reached⟩
      exact ⟨(timestamp, closure), ⟨(timed.held alive _ _).mpr pending, reached⟩, rfl⟩
  exact
    { registered := by
        intro closure member
        obtain ⟨timestamp, pending, -⟩ := (inside closure).mp member
        exact ⟨timestamp, pending.registered⟩
      first := by
        intro earlier closure timestamp mid whole
        rw [inside]
        constructor
        · rintro ⟨stamp, pending, reached⟩
          obtain ⟨rfl, late⟩ := (timed.unique whole).mp pending
          exact ⟨reached, late⟩
        · rintro ⟨reached, late⟩
          exact ⟨timestamp, (timed.unique whole).mpr ⟨rfl, late⟩, reached⟩
      once := by
        rw [ran]
        exact (timed.once alive).sublist (List.filter_sublist.map _)
      order := by
        rw [ran, List.pairwise_map]
        refine (timed.ordered.filter _).imp_of_mem (fun {one two} here there earlier => ?_)
        have first := ((timed.held alive _ _).mp (List.mem_of_mem_filter here)).registered
        have second := ((timed.held alive _ _).mp (List.mem_of_mem_filter there)).registered
        exact ⟨one.1, two.1, first, second, earlier⟩
      idle := by
        intro nothing
        apply (pollTimeout_entries timed.sorted now).1
        refine List.eq_nil_iff_forall_not_mem.mpr (fun pair member => ?_)
        exact nothing pair.2 pair.1 ((timed.remaining alive).mpr member)
      sleeps := by
        intro closure timestamp pending least near
        have ahead : now < timestamp := UInt64.not_le.mp (pending_pass.mp pending).2
        have distance : (timestamp - now).toNat = timestamp.toNat - now.toNat :=
          UInt64.toNat_sub_of_le _ _ (UInt64.le_of_lt ahead)
        have above := UInt64.lt_iff_toNat_lt.mp ahead
        rw [timed.timeout alive pending least, toInt_toInt64, distance, if_pos near]
        omega }

end Steps

structure TimersExact (events : List Event) (timers : Timers) : Prop where
  fired : ∀ before now ran timeout rest, events = before ++ .passed now ran timeout :: rest →
    FiredInTurn before now ran timeout
  /-- A closure that is not due stays registered. -/
  stays : timers.destroyed = false → ∀ closure,
    closure ∈ timersIn timers.reactor.closureRunMap ↔ ∃ timestamp, Pending events closure timestamp
  /-- The destructor deletes each closure that was not run, once. -/
  deleted : ∀ before deleted rest, events = before ++ .destroyed deleted :: rest →
    deleted.Nodup ∧ ∀ closure, closure ∈ deleted ↔ ∃ timestamp, Pending before closure timestamp

/-- Timers fire exactly once, in order and never early. -/
theorem timers_exact (events : List Event) (timers : Timers)
    (run : Run machine anyStep events timers) : TimersExact events timers where
  fired := by
    intro before now ran timeout rest whole
    subst whole
    obtain ⟨state, action, after, steps, turn⟩ := turn_of_event run
    cases turn with
    | pass alive => exact firedInTurn_of_timed (timed_of_run steps) alive now
  stays := by
    intro alive closure
    exact (timed_of_run run).waiting alive closure
  deleted := by
    intro before deleted rest whole
    subst whole
    obtain ⟨state, action, after, steps, turn⟩ := turn_of_event run
    cases turn with
    | destroy alive =>
      have timed := timed_of_run steps
      refine ⟨?_, fun closure => timed.waiting alive closure⟩
      rw [timersIn_entries]
      exact timed.once alive

/-- Two registrations with one timestamp, one with an earlier and one with a later. -/
def mixed : List Action :=
  [.runClosureAt 20, .runClosureAt 10, .process 5, .runClosureAt 20, .runClosureAt 50,
    .process 20, .process 7, .destroy]

/-- The passes of a run whose clock goes back. -/
theorem timers_exact_mixed :
    .passed 20 [1, 0, 2] 30 ∈ (reached machine mixed).2 ∧
      .destroyed [3] ∈ (reached machine mixed).2 ∧
      TimersExact (reached machine mixed).2 (reached machine mixed).1 :=
  ⟨by decide +kernel, by decide +kernel, timers_exact _ _ (run_reached machine mixed)⟩

end Rpcz.TimerPasses
