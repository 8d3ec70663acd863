import Mathlib.Data.List.Perm.Basic
import Mathlib.Data.List.Nodup
import Rpcz.ReactorLoop

/-!
`process_del_sockets` walks the sockets backwards, skips the first, and fills
every hole with the last socket. It removes exactly the marked sockets, each
with its callbacks, and never moves an unvisited socket past the walk.
-/

namespace Rpcz.SocketDeletion
open ReactorLoop

variable {Callback Deleted Timer : Type}

theorem fill_perm {α : Type} {items : List α} {j : Nat} {item last : α} (here : items[j]? = some item)
    (final : items.getLast? = some last) : ((items.set j last).dropLast ++ [item]).Perm items := by
  obtain ⟨front, rfl⟩ : ∃ front, items = front ++ [last] :=
    ⟨items.dropLast, (List.dropLast_append_getLast? last final).symm⟩
  by_cases inside : j < front.length
  · obtain ⟨inFront, rfl⟩ := List.getElem?_eq_some_iff.mp
      ((List.getElem?_append_left inside).symm.trans here)
    rw [List.set_append_left _ _ inside, List.dropLast_concat,
      List.set_eq_take_append_cons_drop, if_pos inside]
    have shape : front ++ [last] = front.take j ++ front[j] :: (front.drop (j + 1) ++ [last]) := by
      rw [← List.cons_append, ← List.append_assoc]
      simp
    rw [shape, List.append_assoc, List.perm_append_left_iff, List.cons_append]
    calc last :: (front.drop (j + 1) ++ [front[j]])
        |>.Perm (last :: front[j] :: front.drop (j + 1)) :=
          (List.perm_append_singleton _ _).cons last
      _ |>.Perm (front[j] :: last :: front.drop (j + 1)) := .swap ..
      _ |>.Perm (front[j] :: (front.drop (j + 1) ++ [last])) :=
          (List.perm_append_singleton _ _).symm.cons _
  · have atEnd : j = front.length := by
      have bound := (List.getElem?_eq_some_iff.mp here).1
      rw [List.length_append, List.length_singleton] at bound
      omega
    subst atEnd
    simp at here
    subst here
    simp

theorem fill_getElem {α : Type} {items : List α} {i j : Nat} {last : α} (front : j < i)
    (inside : i < items.length) : ((items.set i last).dropLast)[j]? = items[j]? := by
  rw [List.getElem?_dropLast, List.length_set, if_pos (by omega),
    List.getElem?_set_ne (by omega)]

/-- The outcome of the walk: `removed` are the pairs it deleted and `ran` the
callbacks it ran, in order. -/
structure Removes (pass done : DelPass Callback Deleted) (removed : List (Nat × Callback))
    (ran : List Deleted) : Prop where
  sockets : (done.sockets ++ removed).Perm pass.sockets
  first : done.sockets[0]? = pass.sockets[0]?
  closed : done.closed = pass.closed ++ removed
  marked : ∀ pair ∈ removed, pair.1 ∈ pass.delSockets.map Prod.fst
  kept : ∀ pair ∈ done.sockets, pair.1 ∉ pass.delSockets.map Prod.fst
  callbacks : done.ran = pass.ran ++ ran
  answered : ran.Perm (pass.delSockets.map Prod.snd)

/-- The marked sockets are among the pairs that the walk from `i` still visits. -/
structure Unvisited (i : Nat) (pass : DelPass Callback Deleted) : Prop where
  distinct : (pass.sockets.map Prod.fst).Nodup
  inside : i < pass.sockets.length
  ahead : ∀ id ∈ pass.delSockets.map Prod.fst,
    ∃ j pair, 1 ≤ j ∧ j ≤ i ∧ pass.sockets[j]? = some pair ∧ pair.1 = id

section Walk
variable {i : Nat} {pass : DelPass Callback Deleted} {pair last : Nat × Callback}

theorem mem_remove_delSockets {id : Nat} :
    id ∈ (pass.remove i pair last).delSockets.map Prod.fst ↔
      id ∈ pass.delSockets.map Prod.fst ∧ id ≠ pair.1 := by
  simp only [DelPass.remove, List.mem_map, List.mem_filter, decide_eq_true_eq]
  constructor
  · rintro ⟨entry, ⟨member, apart⟩, rfl⟩
    exact ⟨⟨entry, member, rfl⟩, apart⟩
  · rintro ⟨⟨entry, member, rfl⟩, apart⟩
    exact ⟨entry, ⟨member, apart⟩, rfl⟩

theorem mem_delSockets_of_filter
    (found : pass.delSockets.filter (fun entry => entry.1 = pair.1) ≠ []) :
    pair.1 ∈ pass.delSockets.map Prod.fst := by
  obtain ⟨entry, member⟩ := List.exists_mem_of_ne_nil _ found
  obtain ⟨inside, same⟩ := List.mem_filter.mp member
  exact List.mem_map.mpr ⟨entry, inside, by simpa using same⟩

theorem Unvisited.skip (unvisited : Unvisited (i + 1) pass) (here : pass.sockets[i + 1]? = some pair)
    (unmarked : pass.delSockets.filter (fun entry => entry.1 = pair.1) = []) : Unvisited i pass where
  distinct := unvisited.distinct
  inside := by have := unvisited.inside; omega
  ahead := by
    intro id member
    obtain ⟨j, other, positive, bound, found, same⟩ := unvisited.ahead id member
    have apart : j ≠ i + 1 := by
      rintro rfl
      obtain rfl : other = pair := Option.some.inj (found.symm.trans here)
      obtain ⟨entry, inside, key⟩ := List.mem_map.mp member
      have none_left := List.filter_eq_nil_iff.mp unmarked entry inside
      simp [key, same] at none_left
    exact ⟨j, other, positive, by omega, found, same⟩

theorem Unvisited.remove (unvisited : Unvisited (i + 1) pass) (here : pass.sockets[i + 1]? = some pair)
    (final : pass.sockets.getLast? = some last) : Unvisited i (pass.remove (i + 1) pair last) where
  distinct := by
    have left : ((pass.sockets.set (i + 1) last).dropLast ++ [pair]).map Prod.fst |>.Nodup :=
      ((fill_perm here final).map Prod.fst).nodup_iff.mpr unvisited.distinct
    rw [List.map_append] at left
    exact left.of_append_left
  inside := by
    have := unvisited.inside
    simp only [DelPass.remove, List.length_dropLast, List.length_set]
    omega
  ahead := by
    intro id member
    obtain ⟨before, apart⟩ := mem_remove_delSockets.mp member
    obtain ⟨j, other, positive, bound, found, same⟩ := unvisited.ahead id before
    have earlier : j ≠ i + 1 := by
      rintro rfl
      obtain rfl : other = pair := Option.some.inj (found.symm.trans here)
      exact apart same.symm
    refine ⟨j, other, positive, by omega, ?_, same⟩
    rw [DelPass.remove, fill_getElem (by omega) unvisited.inside]
    exact found

theorem Removes.after_remove {done : DelPass Callback Deleted} {removed : List (Nat × Callback)}
    {ran : List Deleted} (unvisited : Unvisited (i + 1) pass)
    (here : pass.sockets[i + 1]? = some pair) (final : pass.sockets.getLast? = some last)
    (found : pass.delSockets.filter (fun entry => entry.1 = pair.1) ≠ [])
    (later : Removes (pass.remove (i + 1) pair last) done removed ran) :
    Removes pass done (pair :: removed)
      ((pass.delSockets.filter (fun entry => entry.1 = pair.1)).map Prod.snd ++ ran) where
  sockets := by
    calc done.sockets ++ pair :: removed
        |>.Perm ((done.sockets ++ removed) ++ [pair]) := by
          rw [List.append_assoc, List.perm_append_left_iff]
          exact (List.perm_append_singleton pair removed).symm
      _ |>.Perm ((pass.sockets.set (i + 1) last).dropLast ++ [pair]) :=
          later.sockets.append_right [pair]
      _ |>.Perm pass.sockets := fill_perm here final
  first := by
    rw [later.first, DelPass.remove, fill_getElem (by omega) unvisited.inside]
  closed := by
    rw [later.closed, DelPass.remove, List.append_assoc, List.singleton_append]
  marked := by
    intro other member
    rcases List.mem_cons.mp member with rfl | rest
    · exact mem_delSockets_of_filter found
    · exact (mem_remove_delSockets.mp (later.marked other rest)).1
  kept := by
    intro other member marked
    refine later.kept other member (mem_remove_delSockets.mpr ⟨marked, fun same => ?_⟩)
    have inside : other ∈ (pass.sockets.set (i + 1) last).dropLast :=
      later.sockets.subset (List.mem_append_left _ member)
    have distinct : ((pass.sockets.set (i + 1) last).dropLast ++ [pair]).map Prod.fst |>.Nodup :=
      ((fill_perm here final).map Prod.fst).nodup_iff.mpr unvisited.distinct
    rw [List.map_append, List.map_singleton, List.nodup_append] at distinct
    exact distinct.2.2 _ (List.mem_map_of_mem inside) _ (List.mem_singleton_self _) same
  callbacks := by
    rw [later.callbacks, DelPass.remove, List.append_assoc]
  answered := by
    have parts : (pass.delSockets.filter (fun entry => entry.1 = pair.1) ++
        pass.delSockets.filter (fun entry => !decide (entry.1 = pair.1))).Perm pass.delSockets :=
      List.filter_append_perm _ _
    calc (pass.delSockets.filter (fun entry => entry.1 = pair.1)).map Prod.snd ++ ran
        |>.Perm ((pass.delSockets.filter (fun entry => entry.1 = pair.1)).map Prod.snd ++
          (pass.delSockets.filter (fun entry => entry.1 ≠ pair.1)).map Prod.snd) :=
          later.answered.append_left _
      _ |>.Perm (pass.delSockets.map Prod.snd) := by
          rw [← List.map_append]
          simpa using parts.map Prod.snd

theorem Removes.nothing (unmarked : pass.delSockets = []) : Removes pass pass [] [] where
  sockets := by simp
  first := rfl
  closed := by simp
  marked := by simp
  kept := by simp [unmarked]
  callbacks := by simp
  answered := by simp [unmarked]

theorem processDelFrom_removes (unvisited : Unvisited i pass) :
    ∃ done removed ran, processDelFrom i pass = some done ∧ done.delSockets = [] ∧
      Removes pass done removed ran := by
  induction i generalizing pass with
  | zero =>
    have unmarked : pass.delSockets = [] := by
      refine List.eq_nil_iff_forall_not_mem.mpr (fun entry member => ?_)
      obtain ⟨j, _, positive, bound, _⟩ := unvisited.ahead entry.1 (List.mem_map_of_mem member)
      omega
    exact ⟨pass, [], [], rfl, unmarked, .nothing unmarked⟩
  | succ i ih =>
    have inside := unvisited.inside
    obtain ⟨pair, here⟩ : ∃ pair, pass.sockets[i + 1]? = some pair :=
      ⟨_, List.getElem?_eq_getElem inside⟩
    obtain ⟨last, final⟩ : ∃ last, pass.sockets.getLast? = some last :=
      Option.isSome_iff_exists.mp (by
        rw [List.getLast?_isSome]
        exact List.ne_nil_of_length_pos (by omega))
    rw [processDelFrom, here, final]
    simp only
    split
    · next unmarked => exact ih (unvisited.skip here unmarked)
    · next found =>
      split
      · next emptied =>
        exact ⟨_, _, _, rfl, emptied, .after_remove unvisited here final found (.nothing emptied)⟩
      · obtain ⟨done, removed, ran, same, emptied, later⟩ := ih (unvisited.remove here final)
        exact ⟨done, _, _, same, emptied, .after_remove unvisited here final found later⟩

end Walk

/-- The marked sockets are sockets of the reactor other than the first. -/
structure Marked (reactor : Reactor Callback Deleted Timer) : Prop where
  distinct : (reactor.sockets.map Prod.fst).Nodup
  nonempty : reactor.sockets ≠ []
  ahead : ∀ id ∈ reactor.delSockets.map Prod.fst,
    ∃ j pair, 1 ≤ j ∧ reactor.sockets[j]? = some pair ∧ pair.1 = id

/-- `rebuild_poll_items` as a whole. -/
structure Rebuilt (reactor rebuilt : Reactor Callback Deleted Timer)
    (removed : List (Nat × Callback)) (ran : List Deleted) : Prop where
  sockets : (rebuilt.sockets ++ removed).Perm reactor.sockets
  first : rebuilt.sockets[0]? = reactor.sockets[0]?
  closed : rebuilt.closed = reactor.closed ++ removed
  marked : ∀ pair ∈ removed, pair.1 ∈ reactor.delSockets.map Prod.fst
  kept : ∀ pair ∈ rebuilt.sockets, pair.1 ∉ reactor.delSockets.map Prod.fst
  answered : ran.Perm (reactor.delSockets.map Prod.snd)
  emptied : rebuilt.delSockets = []
  polled : rebuilt.pollItems.map PollItem.socket = rebuilt.sockets.map Prod.fst
  clean : rebuilt.isDirty = false
  timers : rebuilt.closureRunMap = reactor.closureRunMap
  quits : rebuilt.shouldQuit = reactor.shouldQuit

theorem rebuildPollItems_rebuilt {reactor : Reactor Callback Deleted Timer}
    (marked : Marked reactor) :
    ∃ rebuilt removed ran, reactor.rebuildPollItems = some (rebuilt, ran) ∧
      Rebuilt reactor rebuilt removed ran := by
  have walk : ∃ done removed ran,
      processDelSockets ⟨reactor.sockets, reactor.delSockets, reactor.closed, []⟩ = some done ∧
      Removes ⟨reactor.sockets, reactor.delSockets, reactor.closed, []⟩ done removed ran := by
    unfold processDelSockets
    split
    · next unmarked => exact ⟨_, [], [], rfl, .nothing unmarked⟩
    · rw [if_neg marked.nonempty]
      have positive : 0 < reactor.sockets.length := List.length_pos_of_ne_nil marked.nonempty
      have unvisited : Unvisited (reactor.sockets.length - 1)
          ⟨reactor.sockets, reactor.delSockets, reactor.closed, []⟩ :=
        { distinct := marked.distinct
          inside := by simp only; omega
          ahead := by
            intro id member
            obtain ⟨j, pair, first, found, same⟩ := marked.ahead id member
            have bound := (List.getElem?_eq_some_iff.mp found).1
            exact ⟨j, pair, first, by omega, found, same⟩ }
      obtain ⟨done, removed, ran, same, _, removes⟩ := processDelFrom_removes unvisited
      exact ⟨done, removed, ran, same, removes⟩
  obtain ⟨done, removed, ran, same, removes⟩ := walk
  have callbacks : done.ran = ran := by simpa using removes.callbacks
  refine ⟨_, removed, ran, by rw [Reactor.rebuildPollItems, same, ← callbacks], ?_⟩
  exact
    { sockets := removes.sockets
      first := removes.first
      closed := removes.closed
      marked := removes.marked
      kept := removes.kept
      answered := removes.answered
      emptied := rfl
      polled := by simp
      clean := rfl
      timers := rfl
      quits := rfl }

end Rpcz.SocketDeletion
