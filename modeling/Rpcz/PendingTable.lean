import Mathlib.Logic.Function.Basic
import Mathlib.Data.List.Basic

/-!
A table of pending entries driven by a log. An entry is opened under a key; the
first value that closes the key takes the entry out and is delivered to it, and
later values for the key find nothing. What happens to one key depends only on
the operations at that key, so a log that opens a key before all its closings
delivers exactly the first of them.
-/

namespace Rpcz.PendingTable

inductive Op (Key Entry Value : Type*) where
  | opening (key : Key) (entry : Entry)
  | closing (key : Key) (value : Value)

abbrev Table (Key Entry : Type*) := Key → Option Entry

structure Delivery (Key Entry Value : Type*) where
  key : Key
  entry : Entry
  value : Value

variable {Key Entry Value : Type*} [DecidableEq Key]

def Op.key : Op Key Entry Value → Key
  | .opening key _ => key
  | .closing key _ => key

def apply (table : Table Key Entry) :
    Op Key Entry Value → Table Key Entry × List (Delivery Key Entry Value)
  | .opening key entry => (Function.update table key (some entry), [])
  | .closing key value =>
    match table key with
    | none => (table, [])
    | some entry => (Function.update table key none, [⟨key, entry, value⟩])

def replay (table : Table Key Entry) :
    List (Op Key Entry Value) → Table Key Entry × List (Delivery Key Entry Value)
  | [] => (table, [])
  | op :: rest =>
    ((replay (apply table op).1 rest).1, (apply table op).2 ++ (replay (apply table op).1 rest).2)

@[simp] theorem replay_nil (table : Table Key Entry) :
    replay table ([] : List (Op Key Entry Value)) = (table, []) := rfl

theorem replay_append (table : Table Key Entry) (first second : List (Op Key Entry Value)) :
    replay table (first ++ second) =
      ((replay (replay table first).1 second).1,
        (replay table first).2 ++ (replay (replay table first).1 second).2) := by
  induction first generalizing table with
  | nil => simp
  | cons op rest ih => simp [replay, ih, List.append_assoc]

def atKey (key : Key) (ops : List (Op Key Entry Value)) : List (Op Key Entry Value) :=
  ops.filter (fun op => op.key = key)

@[simp] theorem atKey_nil (key : Key) : atKey key ([] : List (Op Key Entry Value)) = [] := rfl

@[simp] theorem atKey_append (key : Key) (first second : List (Op Key Entry Value)) :
    atKey key (first ++ second) = atKey key first ++ atKey key second :=
  List.filter_append ..

def deliveredAt (key : Key) (deliveries : List (Delivery Key Entry Value)) :
    List (Delivery Key Entry Value) :=
  deliveries.filter (fun delivery => delivery.key = key)

theorem apply_other (table : Table Key Entry) (op : Op Key Entry Value) {key : Key}
    (different : op.key ≠ key) :
    (apply table op).1 key = table key ∧ deliveredAt key (apply table op).2 = [] := by
  cases op with
  | opening other entry =>
    have apart : key ≠ other := fun same => different same.symm
    simp [apply, deliveredAt, Function.update_of_ne apart]
  | closing other value =>
    have apart : key ≠ other := fun same => different same.symm
    have unequal : other ≠ key := different
    simp only [apply]
    split <;> simp [deliveredAt, Function.update_of_ne apart, unequal]

theorem apply_congr {first second : Table Key Entry} (op : Op Key Entry Value)
    (same : first op.key = second op.key) :
    (apply first op).1 op.key = (apply second op).1 op.key ∧
      deliveredAt op.key (apply first op).2 = deliveredAt op.key (apply second op).2 := by
  cases op with
  | opening key entry => simp [apply, Op.key]
  | closing key value =>
    simp only [Op.key] at same
    simp only [apply, Op.key, ← same]
    split <;> simp_all [deliveredAt]

theorem replay_atKey (key : Key) (ops : List (Op Key Entry Value)) {first second : Table Key Entry}
    (same : first key = second key) :
    (replay first ops).1 key = (replay second (atKey key ops)).1 key ∧
      deliveredAt key (replay first ops).2 = deliveredAt key (replay second (atKey key ops)).2 := by
  induction ops generalizing first second with
  | nil => exact ⟨same, rfl⟩
  | cons op rest ih =>
    by_cases here : op.key = key
    · subst here
      obtain ⟨entries, deliveries⟩ := apply_congr op same
      obtain ⟨entriesRest, deliveriesRest⟩ := ih entries
      refine ⟨by simpa [atKey, replay] using entriesRest, ?_⟩
      simp only [deliveredAt, atKey, replay, List.filter_append, decide_true,
        List.filter_cons_of_pos] at deliveries deliveriesRest ⊢
      rw [deliveries, deliveriesRest]
    · obtain ⟨entry, silent⟩ := apply_other first op here
      obtain ⟨entriesRest, deliveriesRest⟩ := ih (entry.trans same)
      have skipped : atKey key (op :: rest) = atKey key rest := by simp [atKey, here]
      rw [skipped]
      refine ⟨entriesRest, ?_⟩
      simp only [deliveredAt, replay, List.filter_append] at silent deliveriesRest ⊢
      rw [silent, List.nil_append, deliveriesRest]

theorem replay_closings_absent (table : Table Key Entry) (key : Key) (values : List Value)
    (absent : table key = none) :
    replay table (values.map (Op.closing key)) = (table, []) := by
  induction values with
  | nil => rfl
  | cons value rest ih => simp [replay, apply, absent, ih]

/-- A key opened before its closings: the first closing is delivered, once. -/
theorem replay_opened (table : Table Key Entry) (key : Key) (entry : Entry) (values : List Value)
    {ops : List (Op Key Entry Value)}
    (form : atKey key ops = .opening key entry :: values.map (Op.closing key)) :
    deliveredAt key (replay table ops).2 =
        (values.take 1).map (fun value => ⟨key, entry, value⟩) ∧
      (replay table ops).1 key = if values = [] then some entry else none := by
  obtain ⟨entries, deliveries⟩ := replay_atKey key ops (rfl : table key = table key)
  rw [entries, deliveries, form]
  cases values with
  | nil => simp [replay, apply, deliveredAt]
  | cons value rest =>
    have absent : (Function.update table key none) key = none := by simp
    simp [replay, apply, replay_closings_absent _ key rest absent, deliveredAt]

theorem replay_untouched (table : Table Key Entry) (key : Key)
    {ops : List (Op Key Entry Value)} (none_at : atKey key ops = []) :
    deliveredAt key (replay table ops).2 = [] ∧ (replay table ops).1 key = table key := by
  obtain ⟨entries, deliveries⟩ := replay_atKey key ops (rfl : table key = table key)
  rw [entries, deliveries, none_at]
  exact ⟨rfl, rfl⟩

theorem replay_entry (table : Table Key Entry) {ops : List (Op Key Entry Value)} {key : Key}
    {entry : Entry} (found : (replay table ops).1 key = some entry) :
    table key = some entry ∨ .opening key entry ∈ ops := by
  induction ops generalizing table with
  | nil => exact .inl found
  | cons op rest ih =>
    rcases ih _ found with held | opened
    · cases op with
      | opening other first =>
        by_cases here : key = other
        · subst here
          simp only [apply, Function.update_self, Option.some.injEq] at held
          exact .inr (held ▸ List.mem_cons_self ..)
        · simp only [apply, Function.update_of_ne here] at held
          exact .inl held
      | closing other value =>
        simp only [apply] at held
        split at held
        · exact .inl held
        · by_cases here : key = other
          · subst here
            simp at held
          · simp only [Function.update_of_ne here] at held
            exact .inl held
    · exact .inr (List.mem_cons_of_mem _ opened)

theorem apply_closing {table : Table Key Entry} {key : Key} {entry : Entry} {value : Value}
    (held : table key = some entry) :
    (apply table (.closing key value)).2 = [⟨key, entry, value⟩] := by
  simp [apply, held]

theorem replay_held {table : Table Key Entry} {key : Key} {entry : Entry}
    (held : table key = some entry) {ops : List (Op Key Entry Value)}
    (only : ∀ other, .opening key other ∈ ops → other = entry) :
    (replay table ops).1 key = some entry ∨
      ∃ delivery ∈ (replay table ops).2, delivery.entry = entry := by
  induction ops generalizing table with
  | nil => exact .inl held
  | cons op rest ih =>
    have onlyRest : ∀ other, .opening key other ∈ rest → other = entry :=
      fun other member => only other (List.mem_cons_of_mem _ member)
    have later : (apply table op).1 key = some entry →
        (replay table (op :: rest)).1 key = some entry ∨
          ∃ delivery ∈ (replay table (op :: rest)).2, delivery.entry = entry := by
      intro kept
      rcases ih kept onlyRest with still | ⟨delivery, member, same⟩
      · exact .inl still
      · exact .inr ⟨delivery, List.mem_append_right _ member, same⟩
    by_cases here : op.key = key
    · cases op with
      | opening other first =>
        have same : other = key := here
        subst same
        apply later
        rw [only first (List.mem_cons_self ..)]
        exact Function.update_self ..
      | closing other value =>
        have same : other = key := here
        subst same
        refine .inr ⟨⟨other, entry, value⟩, List.mem_append_left _ ?_, rfl⟩
        rw [apply_closing held]
        exact List.mem_singleton_self _
    · apply later
      rw [(apply_other table op here).1]
      exact held

/-- An entry opened under a key that no other entry is opened under. -/
theorem replay_started (table : Table Key Entry) {key : Key} {entry : Entry}
    {ops : List (Op Key Entry Value)} (opened : .opening key entry ∈ ops)
    (only : ∀ other, .opening key other ∈ ops → other = entry) :
    (replay table ops).1 key = some entry ∨
      ∃ delivery ∈ (replay table ops).2, delivery.entry = entry := by
  obtain ⟨first, rest, rfl⟩ := List.append_of_mem opened
  have onlyRest : ∀ other, .opening key other ∈ rest → other = entry :=
    fun other member => only other (by simp [member])
  have start : (apply (replay table first).1 (.opening key entry : Op Key Entry Value)).1 key =
      some entry := Function.update_self ..
  rw [replay_append]
  rcases replay_held start onlyRest with held | ⟨delivery, member, same⟩
  · exact .inl held
  · exact .inr ⟨delivery, List.mem_append_right _ (List.mem_append_right _ member), same⟩

/-- A value that closes a key after its one entry was opened finds the entry, or
an earlier value has reached it. -/
theorem replay_closed (table : Table Key Entry) {key : Key} {entry : Entry} {value : Value}
    {before rest : List (Op Key Entry Value)} (opened : .opening key entry ∈ before)
    (only : ∀ other, .opening key other ∈ before → other = entry) :
    ∃ delivery ∈ (replay table (before ++ .closing key value :: rest)).2,
      delivery.entry = entry := by
  rw [replay_append]
  rcases replay_started table opened only with held | ⟨delivery, member, same⟩
  · refine ⟨⟨key, entry, value⟩, List.mem_append_right _ (List.mem_append_left _ ?_), rfl⟩
    rw [apply_closing held]
    exact List.mem_singleton_self _
  · exact ⟨delivery, List.mem_append_left _ member, same⟩

def openings [DecidableEq Entry] (entry : Entry) (ops : List (Op Key Entry Value)) : Nat :=
  ops.countP fun
    | .opening _ opened => opened = entry
    | .closing _ _ => false

def deliveriesTo [DecidableEq Entry] (entry : Entry)
    (deliveries : List (Delivery Key Entry Value)) : Nat :=
  deliveries.countP (fun delivery => delivery.entry = entry)

def isHeld [DecidableEq Entry] (table : Table Key Entry) (key : Key) (entry : Entry) : Nat :=
  if table key = some entry then 1 else 0

/-- An entry that is opened under one key receives a value at most as often as
it was opened, and is not pending under the key if it has received them all. -/
theorem replay_count [DecidableEq Entry] {table : Table Key Entry} {key : Key} {entry : Entry}
    (start : ∀ other, table other = some entry → other = key) {ops : List (Op Key Entry Value)}
    (own : ∀ other, .opening other entry ∈ ops → other = key) :
    deliveriesTo entry (replay table ops).2 + isHeld (replay table ops).1 key entry ≤
      isHeld table key entry + openings entry ops := by
  induction ops generalizing table with
  | nil => simp [deliveriesTo, openings]
  | cons op rest ih =>
    have ownRest : ∀ other, .opening other entry ∈ rest → other = key :=
      fun other member => own other (List.mem_cons_of_mem _ member)
    have counted : deliveriesTo entry (replay table (op :: rest)).2 =
        deliveriesTo entry (apply table op).2 +
          deliveriesTo entry (replay (apply table op).1 rest).2 := by
      simp [replay, deliveriesTo, List.countP_append]
    have opened : openings entry (op :: rest) = openings entry [op] + openings entry rest := by
      rw [openings, openings, openings, ← List.countP_append, List.singleton_append]
    have step : deliveriesTo entry (apply table op).2 + isHeld (apply table op).1 key entry ≤
          isHeld table key entry + openings entry [op] ∧
        ∀ other, (apply table op).1 other = some entry → other = key := by
      cases op with
      | opening at_key first =>
        by_cases same : first = entry
        · subst same
          have here : at_key = key := own at_key (List.mem_cons_self ..)
          subst here
          refine ⟨by simp [apply, deliveriesTo, openings, isHeld], fun other found => ?_⟩
          by_cases again : other = at_key
          · exact again
          · simp only [apply, Function.update_of_ne again] at found
            exact start other found
        · refine ⟨?_, fun other found => ?_⟩
          · by_cases here : key = at_key
            · subst here
              simp [apply, deliveriesTo, openings, isHeld, same]
            · simp [apply, deliveriesTo, openings, isHeld, same, Function.update_of_ne here]
          · by_cases again : other = at_key
            · subst again
              simp [apply, same] at found
            · simp only [apply, Function.update_of_ne again] at found
              exact start other found
      | closing at_key value =>
        cases found : table at_key with
        | none => exact ⟨by simp [apply, found, deliveriesTo, openings], by simpa [apply, found] using start⟩
        | some held =>
          refine ⟨?_, fun other kept => ?_⟩
          · by_cases same : held = entry
            · subst same
              have here : at_key = key := start at_key found
              subst here
              simp [apply, found, deliveriesTo, openings, isHeld]
            · by_cases here : key = at_key
              · subst here
                simp [apply, found, deliveriesTo, openings, isHeld, same]
              · simp [apply, found, deliveriesTo, openings, isHeld, same, Function.update_of_ne here]
          · by_cases again : other = at_key
            · subst again
              simp [apply, found] at kept
            · simp only [apply, found, Function.update_of_ne again] at kept
              exact start other kept
    have later := ih step.2 ownRest
    simp only [replay] at counted ⊢
    rw [counted, opened]
    have first := step.1
    omega

def Keyed (owner : Entry → Key) (table : Table Key Entry) : Prop :=
  ∀ key entry, table key = some entry → owner entry = key

theorem Keyed.update_none {owner : Entry → Key} {table : Table Key Entry} (keyed : Keyed owner table)
    (key : Key) : Keyed owner (Function.update table key none) := by
  intro other entry found
  by_cases here : other = key
  · subst here
    simp at found
  · rw [Function.update_of_ne here] at found
    exact keyed other entry found

theorem replay_keyed {owner : Entry → Key} {table : Table Key Entry} (keyed : Keyed owner table)
    {ops : List (Op Key Entry Value)}
    (opened : ∀ key entry, Op.opening key entry ∈ ops → owner entry = key) :
    Keyed owner (replay table ops).1 ∧
      ∀ delivery ∈ (replay table ops).2, owner delivery.entry = delivery.key := by
  induction ops generalizing table with
  | nil => exact ⟨keyed, by simp⟩
  | cons op rest ih =>
    have openedRest : ∀ key entry, Op.opening key entry ∈ rest → owner entry = key :=
      fun key entry member => opened key entry (List.mem_cons_of_mem _ member)
    cases op with
    | opening key entry =>
      have own := opened key entry (List.mem_cons_self ..)
      refine ih (fun other held found => ?_) openedRest
      simp only [apply] at found
      by_cases here : other = key
      · subst here
        simp only [Function.update_self, Option.some.injEq] at found
        exact found ▸ own
      · rw [Function.update_of_ne here] at found
        exact keyed other held found
    | closing key value =>
      cases found : table key with
      | none =>
        simp only [replay, apply, found, List.nil_append]
        exact ih keyed openedRest
      | some entry =>
        simp only [replay, apply, found]
        obtain ⟨later, deliveries⟩ := ih (keyed.update_none key) openedRest
        refine ⟨later, fun delivery member => ?_⟩
        rcases List.mem_append.mp member with first | second
        · rw [List.mem_singleton.mp first]
          exact keyed key entry found
        · exact deliveries delivery second

end Rpcz.PendingTable
