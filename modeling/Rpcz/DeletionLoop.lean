import Rpcz.Automaton
import Rpcz.SocketDeletion

/-!
The order of what `process_del_sockets` does. Each marked socket is deleted with
its event callback, and its deletion callbacks run after that.
-/

namespace Rpcz.DeletionLoop
open Automaton ReactorLoop SocketDeletion

variable {Callback Deleted : Type}

inductive Deed (Callback Deleted : Type) where
  | deleteSocket (socket : Nat)
  | deleteCallback (socket : Nat) (callback : Callback)
  | runDeletion (socket : Nat) (deletion : Deleted)
deriving DecidableEq

def removeDeeds (pass : DelPass Callback Deleted) (pair : Nat × Callback) :
    List (Deed Callback Deleted) :=
  .deleteSocket pair.1 :: .deleteCallback pair.1 pair.2 ::
    (pass.delSockets.filter (fun entry => entry.1 = pair.1)).map
      (fun entry => .runDeletion entry.1 entry.2)

def deedsFrom : Nat → DelPass Callback Deleted → List (Deed Callback Deleted)
  | 0, _ => []
  | i + 1, pass =>
    match pass.sockets[i + 1]?, pass.sockets.getLast? with
    | some pair, some last =>
      if pass.delSockets.filter (fun entry => entry.1 = pair.1) = [] then deedsFrom i pass
      else if (pass.remove (i + 1) pair last).delSockets = [] then removeDeeds pass pair
      else removeDeeds pass pair ++ deedsFrom i (pass.remove (i + 1) pair last)
    | _, _ => []

def deeds (pass : DelPass Callback Deleted) : List (Deed Callback Deleted) :=
  if pass.delSockets = [] then []
  else if pass.sockets = [] then []
  else deedsFrom (pass.sockets.length - 1) pass

def deletedSockets (deeds : List (Deed Callback Deleted)) : List Nat :=
  deeds.filterMap fun
    | .deleteSocket socket => some socket
    | _ => none

def deletedCallbacks (deeds : List (Deed Callback Deleted)) : List (Nat × Callback) :=
  deeds.filterMap fun
    | .deleteCallback socket callback => some (socket, callback)
    | _ => none

def deletionsRun (deeds : List (Deed Callback Deleted)) : List (Nat × Deleted) :=
  deeds.filterMap fun
    | .runDeletion socket deletion => some (socket, deletion)
    | _ => none

/-- Every deletion callback runs after its socket and the event callback of the
socket were deleted. -/
def DeletesFirst (deeds : List (Deed Callback Deleted)) : Prop :=
  ∀ before socket deletion after, deeds = before ++ .runDeletion socket deletion :: after →
    .deleteSocket socket ∈ before ∧ ∃ callback, .deleteCallback socket callback ∈ before

@[simp] theorem deletedSockets_append (first second : List (Deed Callback Deleted)) :
    deletedSockets (first ++ second) = deletedSockets first ++ deletedSockets second :=
  List.filterMap_append ..

@[simp] theorem deletedCallbacks_append (first second : List (Deed Callback Deleted)) :
    deletedCallbacks (first ++ second) = deletedCallbacks first ++ deletedCallbacks second :=
  List.filterMap_append ..

@[simp] theorem deletionsRun_append (first second : List (Deed Callback Deleted)) :
    deletionsRun (first ++ second) = deletionsRun first ++ deletionsRun second :=
  List.filterMap_append ..

theorem DeletesFirst.nil : DeletesFirst ([] : List (Deed Callback Deleted)) := by
  intro before socket deletion after shape
  simp at shape

theorem DeletesFirst.append {first second : List (Deed Callback Deleted)}
    (earlier : DeletesFirst first) (later : DeletesFirst second) :
    DeletesFirst (first ++ second) := by
  intro before socket deletion after shape
  rcases append_split shape with ⟨rest, left, -⟩ | ⟨pre, left, right⟩
  · exact earlier before socket deletion rest left
  · obtain ⟨deleted, callback, lost⟩ := later pre socket deletion after right
    subst left
    exact ⟨List.mem_append_right _ deleted, callback, List.mem_append_right _ lost⟩

section Turn
variable {pass : DelPass Callback Deleted} {pair last : Nat × Callback} {i : Nat}

theorem removeDeeds_sockets : deletedSockets (removeDeeds pass pair) = [pair.1] := by
  simp [removeDeeds, deletedSockets, List.filterMap_map]

theorem removeDeeds_callbacks : deletedCallbacks (removeDeeds pass pair) = [pair] := by
  simp [removeDeeds, deletedCallbacks, List.filterMap_map]

theorem removeDeeds_deletions : deletionsRun (removeDeeds pass pair) =
    pass.delSockets.filter (fun entry => entry.1 = pair.1) := by
  simp [removeDeeds, deletionsRun, List.filterMap_map]

theorem removeDeeds_first : DeletesFirst (removeDeeds pass pair) := by
  intro before socket deletion after shape
  have own : socket = pair.1 := by
    have ran : (socket, deletion) ∈ deletionsRun (removeDeeds pass pair) := by
      rw [shape]
      simp [deletionsRun]
    rw [removeDeeds_deletions, List.mem_filter] at ran
    simpa using ran.2
  subst own
  rw [removeDeeds] at shape
  match before, shape with
  | [], shape => simp at shape
  | [_], shape => simp at shape
  | first :: second :: rest, shape =>
    simp only [List.cons_append, List.cons.injEq] at shape
    obtain ⟨rfl, rfl, -⟩ := shape
    exact ⟨by simp, pair.2, by simp⟩

theorem deedsFrom_first : DeletesFirst (deedsFrom i pass) := by
  induction i generalizing pass with
  | zero => exact .nil
  | succ i ih =>
    rw [deedsFrom]
    split
    · split
      · exact ih
      · split
        · exact removeDeeds_first
        · exact removeDeeds_first.append ih
    · exact .nil

theorem deedsFrom_closed {done : DelPass Callback Deleted}
    (walked : processDelFrom i pass = some done) :
    done.closed = pass.closed ++ deletedCallbacks (deedsFrom i pass) ∧
      (deletedCallbacks (deedsFrom i pass)).map Prod.fst = deletedSockets (deedsFrom i pass) := by
  induction i generalizing pass with
  | zero =>
    simp only [processDelFrom, Option.some.injEq] at walked
    subst walked
    exact ⟨(List.append_nil _).symm, rfl⟩
  | succ i ih =>
    rw [processDelFrom] at walked
    split at walked
    · next pair last here final =>
      rw [deedsFrom, here, final]
      simp only
      split at walked
      · next untouched =>
        rw [if_pos untouched]
        exact ih walked
      · next found =>
        rw [if_neg found]
        split at walked
        · next emptied =>
          rw [if_pos emptied]
          obtain rfl := Option.some.inj walked
          rw [removeDeeds_callbacks, removeDeeds_sockets]
          exact ⟨rfl, rfl⟩
        · next more =>
          rw [if_neg more]
          obtain ⟨closed, same⟩ := ih walked
          constructor
          · rw [closed, deletedCallbacks_append, removeDeeds_callbacks, ← List.append_assoc]
            rfl
          · rw [deletedCallbacks_append, deletedSockets_append, List.map_append, same,
              removeDeeds_callbacks, removeDeeds_sockets]
            rfl
    · cases walked

theorem deedsFrom_deletions (unvisited : Unvisited i pass) :
    (deletionsRun (deedsFrom i pass)).Perm pass.delSockets := by
  induction i generalizing pass with
  | zero =>
    have none_left : pass.delSockets = [] := by
      refine List.eq_nil_iff_forall_not_mem.mpr (fun entry member => ?_)
      obtain ⟨j, _, positive, bound, _⟩ := unvisited.ahead entry.1 (List.mem_map_of_mem member)
      omega
    rw [none_left]
    rfl
  | succ i ih =>
    have inside := unvisited.inside
    obtain ⟨pair, here⟩ : ∃ pair, pass.sockets[i + 1]? = some pair :=
      ⟨_, List.getElem?_eq_getElem inside⟩
    obtain ⟨last, final⟩ : ∃ last, pass.sockets.getLast? = some last :=
      Option.isSome_iff_exists.mp (by
        rw [List.getLast?_isSome]
        exact List.ne_nil_of_length_pos (by omega))
    have parts : (pass.delSockets.filter (fun entry => entry.1 = pair.1) ++
        (pass.remove (i + 1) pair last).delSockets).Perm pass.delSockets := by
      have split := List.filter_append_perm (fun entry => decide (entry.1 = pair.1)) pass.delSockets
      simpa [DelPass.remove] using split
    rw [deedsFrom, here, final]
    simp only
    split
    · next untouched => exact ih (unvisited.skip here untouched)
    · split
      · next emptied =>
        rw [emptied, List.append_nil] at parts
        rw [removeDeeds_deletions]
        exact parts
      · have later := ih (unvisited.remove here final)
        rw [deletionsRun_append, removeDeeds_deletions]
        exact (later.append_left _).trans parts

end Turn

def marked (sockets : List (Nat × Callback)) (delSockets : List (Nat × Deleted)) :
    List (Nat × Callback) :=
  sockets.filter (fun pair => pair.1 ∈ delSockets.map Prod.fst)

def unmarked (sockets : List (Nat × Callback)) (delSockets : List (Nat × Deleted)) :
    List (Nat × Callback) :=
  sockets.filter (fun pair => pair.1 ∉ delSockets.map Prod.fst)

/-- What one call of `process_del_sockets` achieves. -/
structure MarkedRemoved (sockets : List (Nat × Callback)) (delSockets : List (Nat × Deleted))
    (done : DelPass Callback Deleted) (deeds : List (Deed Callback Deleted)) : Prop where
  left : done.sockets.Perm (unmarked sockets delSockets)
  first : done.sockets[0]? = sockets[0]?
  deleted : (deletedSockets deeds).Perm ((marked sockets delSockets).map Prod.fst)
  once : (deletedSockets deeds).Nodup
  callbacks : (deletedCallbacks deeds).Perm (marked sockets delSockets)
  paired : (deletedCallbacks deeds).map Prod.fst = deletedSockets deeds
  ran : (deletionsRun deeds).Perm delSockets
  order : DeletesFirst deeds
  emptied : done.delSockets = []

theorem removed_perm {pass done : DelPass Callback Deleted} {removed : List (Nat × Callback)}
    {ran : List Deleted} (removes : Removes pass done removed ran) :
    removed.Perm (marked pass.sockets pass.delSockets) ∧
      done.sockets.Perm (unmarked pass.sockets pass.delSockets) := by
  have gone : marked removed pass.delSockets = removed :=
    List.filter_eq_self.mpr (fun pair member => by simpa using removes.marked pair member)
  have none_gone : unmarked removed pass.delSockets = [] :=
    List.filter_eq_nil_iff.mpr (fun pair member => by simpa using removes.marked pair member)
  have kept : unmarked done.sockets pass.delSockets = done.sockets :=
    List.filter_eq_self.mpr (fun pair member => by simpa using removes.kept pair member)
  have none_kept : marked done.sockets pass.delSockets = [] :=
    List.filter_eq_nil_iff.mpr (fun pair member => by simpa using removes.kept pair member)
  constructor
  · have split := removes.sockets.filter (fun pair => pair.1 ∈ pass.delSockets.map Prod.fst)
    rw [List.filter_append] at split
    change (marked done.sockets pass.delSockets ++ marked removed pass.delSockets).Perm _ at split
    rwa [none_kept, gone, List.nil_append] at split
  · have split := removes.sockets.filter (fun pair => pair.1 ∉ pass.delSockets.map Prod.fst)
    rw [List.filter_append] at split
    change (unmarked done.sockets pass.delSockets ++ unmarked removed pass.delSockets).Perm _
      at split
    rwa [kept, none_gone, List.append_nil] at split

theorem deletion_removes (pass : DelPass Callback Deleted)
    (distinct : (pass.sockets.map Prod.fst).Nodup)
    (listed : ∀ entry ∈ pass.delSockets, ∃ j callback, 1 ≤ j ∧
      pass.sockets[j]? = some (entry.1, callback)) :
    ∃ done, processDelSockets pass = some done ∧
      MarkedRemoved pass.sockets pass.delSockets done (deeds pass) := by
  by_cases idle : pass.delSockets = []
  · refine ⟨pass, by rw [processDelSockets, if_pos idle], ?_⟩
    rw [deeds, if_pos idle]
    exact
      { left := by simp [unmarked, idle]
        first := rfl
        deleted := by simp [marked, deletedSockets, idle]
        once := List.nodup_nil
        callbacks := by simp [marked, deletedCallbacks, idle]
        paired := rfl
        ran := by simp [deletionsRun, idle]
        order := .nil
        emptied := idle }
  · have inhabited : pass.sockets ≠ [] := by
      intro absent
      obtain ⟨entry, member⟩ := List.exists_mem_of_ne_nil _ idle
      obtain ⟨j, callback, -, found⟩ := listed entry member
      simp [absent] at found
    have positive : 0 < pass.sockets.length := List.length_pos_of_ne_nil inhabited
    have unvisited : Unvisited (pass.sockets.length - 1) pass :=
      { distinct := distinct
        inside := by omega
        ahead := by
          intro id member
          obtain ⟨entry, inside, rfl⟩ := List.mem_map.mp member
          obtain ⟨j, callback, first, found⟩ := listed entry inside
          have bound := (List.getElem?_eq_some_iff.mp found).1
          exact ⟨j, _, first, by omega, found, rfl⟩ }
    obtain ⟨done, removed, ran, walked, emptied, removes⟩ := processDelFrom_removes unvisited
    obtain ⟨closed, same⟩ := deedsFrom_closed walked
    obtain ⟨gone, left⟩ := removed_perm removes
    have lost : deletedCallbacks (deedsFrom (pass.sockets.length - 1) pass) = removed := by
      rw [removes.closed] at closed
      exact (List.append_cancel_left closed).symm
    refine ⟨done, by rw [processDelSockets, if_neg idle, if_neg inhabited]; exact walked, ?_⟩
    rw [deeds, if_neg idle, if_neg inhabited]
    have deleted := gone.map Prod.fst
    rw [← lost, same] at deleted
    exact
      { left := left
        first := removes.first
        deleted := deleted
        once := by
          rw [deleted.nodup_iff]
          exact distinct.sublist (List.Sublist.map _ List.filter_sublist)
        callbacks := lost ▸ gone
        paired := same
        ran := deedsFrom_deletions unvisited
        order := deedsFrom_first
        emptied := emptied }

/-- The deletion loop removes exactly the marked sockets. -/
theorem deletionLoop_removes (sockets : List (Nat × Callback)) (delSockets : List (Nat × Deleted))
    (distinct : (sockets.map Prod.fst).Nodup)
    (listed : ∀ entry ∈ delSockets, ∃ j callback, 1 ≤ j ∧ sockets[j]? = some (entry.1, callback)) :
    ∃ done, processDelSockets ⟨sockets, delSockets, [], []⟩ = some done ∧
      MarkedRemoved sockets delSockets done (deeds ⟨sockets, delSockets, [], []⟩) :=
  deletion_removes _ distinct listed

/-- Four sockets, two of them marked and one of these twice. -/
theorem deletionLoop_removes_two :
    ∃ done, processDelSockets ⟨[(7, 'a'), (3, 'b'), (9, 'c'), (4, 'd')], [(9, 1), (3, 2), (9, 5)],
        [], []⟩ = some done ∧
      MarkedRemoved [(7, 'a'), (3, 'b'), (9, 'c'), (4, 'd')] [(9, 1), (3, 2), (9, 5)] done
        (deeds ⟨[(7, 'a'), (3, 'b'), (9, 'c'), (4, 'd')], [(9, 1), (3, 2), (9, 5)], [], []⟩) := by
  refine deletionLoop_removes _ _ (by decide) ?_
  intro entry member
  simp only [List.mem_cons, List.not_mem_nil, or_false] at member
  rcases member with rfl | rfl | rfl
  · exact ⟨2, 'c', by decide, rfl⟩
  · exact ⟨1, 'b', by decide, rfl⟩
  · exact ⟨2, 'c', by decide, rfl⟩

end Rpcz.DeletionLoop
