import Rpcz.ReactorRun
import Mathlib.Data.List.Perm.Lattice

/-!
`pollitems_` and `sockets_` over whole runs of the loop. `pollitems_` is built from
the first sockets of `sockets_`: callbacks only append to `sockets_`, and deletions
wait for the next rebuild.
-/

namespace Rpcz.DispatchRounds
open Automaton ReactorLoop DeletionLoop ReactorRun

variable {Callback Deleted Timer : Type}

def additions (events : List (Event Callback Deleted Timer)) : List (Nat × Callback) :=
  events.filterMap fun
    | .added socket callback => some (socket, callback)
    | _ => none

def requests (events : List (Event Callback Deleted Timer)) : List (Nat × Deleted) :=
  events.filterMap fun
    | .requested socket deletion => some (socket, deletion)
    | _ => none

def deedsOf (events : List (Event Callback Deleted Timer)) : List (Deed Callback Deleted) :=
  events.filterMap fun
    | .deed deed => some deed
    | _ => none

@[simp] theorem additions_append (first second : List (Event Callback Deleted Timer)) :
    additions (first ++ second) = additions first ++ additions second :=
  List.filterMap_append ..

@[simp] theorem requests_append (first second : List (Event Callback Deleted Timer)) :
    requests (first ++ second) = requests first ++ requests second :=
  List.filterMap_append ..

@[simp] theorem deedsOf_append (first second : List (Event Callback Deleted Timer)) :
    deedsOf (first ++ second) = deedsOf first ++ deedsOf second :=
  List.filterMap_append ..

theorem mem_deedsOf {events : List (Event Callback Deleted Timer)} {deed : Deed Callback Deleted} :
    deed ∈ deedsOf events ↔ .deed deed ∈ events := by
  simp only [deedsOf, List.mem_filterMap]
  constructor
  · rintro ⟨event, member, shown⟩
    cases event <;> simp at shown
    subst shown
    exact member
  · intro member
    exact ⟨_, member, rfl⟩

theorem mem_requests {events : List (Event Callback Deleted Timer)} {socket : Nat}
    {deletion : Deleted} :
    (socket, deletion) ∈ requests events ↔ .requested socket deletion ∈ events := by
  simp only [requests, List.mem_filterMap]
  constructor
  · rintro ⟨event, member, shown⟩
    cases event <;> simp at shown
    obtain ⟨rfl, rfl⟩ := shown
    exact member
  · intro member
    exact ⟨_, member, rfl⟩

theorem mem_additions {events : List (Event Callback Deleted Timer)} {socket : Nat}
    {callback : Callback} :
    (socket, callback) ∈ additions events ↔ .added socket callback ∈ events := by
  simp only [additions, List.mem_filterMap]
  constructor
  · rintro ⟨event, member, shown⟩
    cases event <;> simp at shown
    obtain ⟨rfl, rfl⟩ := shown
    exact member
  · intro member
    exact ⟨_, member, rfl⟩

theorem deleteSocket_mem {deeds : List (Deed Callback Deleted)} {socket : Nat} :
    socket ∈ deletedSockets deeds ↔ .deleteSocket socket ∈ deeds := by
  simp only [deletedSockets, List.mem_filterMap]
  constructor
  · rintro ⟨deed, member, shown⟩
    cases deed <;> simp at shown
    subst shown
    exact member
  · intro member
    exact ⟨_, member, rfl⟩

theorem deleteCallback_mem {deeds : List (Deed Callback Deleted)} {socket : Nat}
    {callback : Callback} :
    (socket, callback) ∈ deletedCallbacks deeds ↔ .deleteCallback socket callback ∈ deeds := by
  simp only [deletedCallbacks, List.mem_filterMap]
  constructor
  · rintro ⟨deed, member, shown⟩
    cases deed <;> simp at shown
    obtain ⟨rfl, rfl⟩ := shown
    exact member
  · intro member
    exact ⟨_, member, rfl⟩

theorem runDeletion_mem {deeds : List (Deed Callback Deleted)} {socket : Nat}
    {deletion : Deleted} :
    (socket, deletion) ∈ deletionsRun deeds ↔ .runDeletion socket deletion ∈ deeds := by
  simp only [deletionsRun, List.mem_filterMap]
  constructor
  · rintro ⟨deed, member, shown⟩
    cases deed <;> simp at shown
    obtain ⟨rfl, rfl⟩ := shown
    exact member
  · intro member
    exact ⟨_, member, rfl⟩

structure Kept (first : Callback) (events : List (Event Callback Deleted Timer))
    (loop : Loop Callback Deleted Timer) : Prop where
  /-- A socket is in `sockets_` with its callback or both were deleted. -/
  sockets : (loop.reactor.sockets ++ deletedCallbacks (deedsOf events)).Perm
    ((0, first) :: additions events)
  paired : (deletedCallbacks (deedsOf events)).map Prod.fst = deletedSockets (deedsOf events)
  numbered : ((0, first) :: additions events).map Prod.fst = List.range loop.nextSocket
  front : loop.reactor.sockets[0]? = some (0, first)
  requested : (requests events).map Prod.fst = loop.requested
  once : loop.requested.Nodup
  legal : ∀ socket ∈ loop.requested, 0 < socket ∧ socket < loop.nextSocket
  deletions : (deletionsRun (deedsOf events) ++ loop.reactor.delSockets).Perm (requests events)
  gone : (deletedSockets (deedsOf events)).Perm ((deletionsRun (deedsOf events)).map Prod.fst)
  order : DeletesFirst (deedsOf events)
  dirty : loop.reactor.delSockets ≠ [] → loop.reactor.isDirty
  settled : loop.place = .timers ∨ loop.place = .poll → loop.reactor.delSockets = []
  entered : .entered ∈ events → loop.place ≠ .outside

section Keep
variable {first : Callback} {events emitted : List (Event Callback Deleted Timer)}
  {loop after : Loop Callback Deleted Timer} {allowed : Loop Callback Deleted Timer →
    Action Callback Deleted Timer → Prop}

theorem Kept.start : Kept first [] (Loop.new first : Loop Callback Deleted Timer) where
  sockets := by simp [Loop.new, Reactor.addSocket, deedsOf, deletedCallbacks, additions]
  paired := rfl
  numbered := by simp [Loop.new, additions, List.range_succ]
  front := rfl
  requested := rfl
  once := List.nodup_nil
  legal := by simp [Loop.new]
  deletions := by simp [Loop.new, Reactor.addSocket, deedsOf, deletionsRun, requests]
  gone := by simp [deedsOf, deletedSockets, deletionsRun]
  order := .nil
  dirty := fun _ => rfl
  settled := by simp [Loop.new]
  entered := by simp

namespace Kept

theorem distinct (kept : Kept first events loop) :
    ((loop.reactor.sockets ++ deletedCallbacks (deedsOf events)).map Prod.fst).Nodup := by
  rw [(kept.sockets.map Prod.fst).nodup_iff, kept.numbered]
  exact List.nodup_range

theorem undeleted (kept : Kept first events loop) {pair : Nat × Callback}
    (held : pair ∈ loop.reactor.sockets) : pair.1 ∉ deletedSockets (deedsOf events) := by
  have apart := kept.distinct
  rw [List.map_append, List.nodup_append] at apart
  intro deleted
  rw [← kept.paired] at deleted
  exact apart.2.2 _ (List.mem_map_of_mem held) _ deleted rfl

theorem held (kept : Kept first events loop) {socket : Nat} (added : socket < loop.nextSocket)
    (alive : socket ∉ deletedSockets (deedsOf events)) :
    ∃ callback, (socket, callback) ∈ loop.reactor.sockets := by
  have known : socket ∈ (loop.reactor.sockets ++ deletedCallbacks (deedsOf events)).map
      Prod.fst := by
    rw [(kept.sockets.map Prod.fst).mem_iff, kept.numbered]
    exact List.mem_range.mpr added
  rw [List.map_append, kept.paired, List.mem_append] at known
  rcases known with inside | deleted
  · obtain ⟨pair, member, rfl⟩ := List.mem_map.mp inside
    exact ⟨pair.2, member⟩
  · exact absurd deleted alive

theorem requested_of_run (kept : Kept first events loop) {socket : Nat}
    (deleted : socket ∈ deletedSockets (deedsOf events)) : socket ∈ loop.requested := by
  rw [← kept.requested, ← (kept.deletions.map Prod.fst).mem_iff, List.map_append]
  exact List.mem_append_left _ (kept.gone.subset deleted)

theorem marks_distinct (kept : Kept first events loop) :
    ((deletionsRun (deedsOf events) ++ loop.reactor.delSockets).map Prod.fst).Nodup := by
  rw [(kept.deletions.map Prod.fst).nodup_iff, kept.requested]
  exact kept.once

theorem listed (kept : Kept first events loop) (entry : Nat × Deleted)
    (marked : entry ∈ loop.reactor.delSockets) :
    ∃ j callback, 1 ≤ j ∧ loop.reactor.sockets[j]? = some (entry.1, callback) := by
  have known : entry.1 ∈ loop.requested := by
    rw [← kept.requested, ← (kept.deletions.map Prod.fst).mem_iff, List.map_append]
    exact List.mem_append_right _ (List.mem_map_of_mem marked)
  have alive : entry.1 ∉ deletedSockets (deedsOf events) := by
    have apart := kept.marks_distinct
    rw [List.map_append, List.nodup_append] at apart
    intro deleted
    exact apart.2.2 _ (kept.gone.subset deleted) _ (List.mem_map_of_mem marked) rfl
  obtain ⟨positive, bound⟩ := kept.legal _ known
  obtain ⟨callback, inside⟩ := kept.held bound alive
  obtain ⟨j, found⟩ := List.mem_iff_getElem?.mp inside
  refine ⟨j, callback, ?_, found⟩
  by_contra zero
  have start : j = 0 := by omega
  subst start
  rw [kept.front] at found
  obtain ⟨same, -⟩ := Prod.mk.inj (Option.some.inj found)
  omega

theorem idle (kept : Kept first events loop) (sameSockets : after.reactor.sockets =
      loop.reactor.sockets) (sameMarks : after.reactor.delSockets = loop.reactor.delSockets)
    (sameDirty : after.reactor.isDirty = loop.reactor.isDirty)
    (sameNext : after.nextSocket = loop.nextSocket)
    (sameRequested : after.requested = loop.requested) (silentAdd : additions emitted = [])
    (silentRequest : requests emitted = []) (silentDeed : deedsOf emitted = [])
    (settled : after.place = .timers ∨ after.place = .poll → loop.reactor.delSockets = [])
    (inside : .entered ∈ events ++ emitted → after.place ≠ .outside) :
    Kept first (events ++ emitted) after where
  sockets := by simpa [silentAdd, silentDeed, sameSockets] using kept.sockets
  paired := by simpa [silentDeed] using kept.paired
  numbered := by simpa [silentAdd, sameNext] using kept.numbered
  front := by rw [sameSockets]; exact kept.front
  requested := by simpa [silentRequest, sameRequested] using kept.requested
  once := by rw [sameRequested]; exact kept.once
  legal := by rw [sameRequested, sameNext]; exact kept.legal
  deletions := by simpa [silentRequest, silentDeed, sameMarks] using kept.deletions
  gone := by simpa [silentDeed] using kept.gone
  order := by simpa [silentDeed] using kept.order
  dirty := by rw [sameMarks, sameDirty]; exact kept.dirty
  settled := by rw [sameMarks]; exact settled
  entered := inside

theorem add (kept : Kept first events loop) (callback : Callback)
    (busy : loop.place = .outside ∨ ∃ i, loop.place = .running i) :
    Kept first (events ++ (loop.perform (.addSocket callback)).2)
      (loop.perform (.addSocket callback)).1 where
  sockets := by
    simp only [Loop.perform, Reactor.addSocket, additions_append, deedsOf_append,
      deletedCallbacks_append]
    have moved := (kept.sockets.append_right [(loop.nextSocket, callback)])
    refine List.Perm.trans ?_ moved
    simp only [deedsOf, List.filterMap_cons, List.filterMap_nil, deletedCallbacks,
      List.append_nil, List.append_assoc]
    exact (List.perm_append_comm).append_left _
  paired := by simpa [Loop.perform, deedsOf, deletedCallbacks, deletedSockets] using kept.paired
  numbered := by
    have count := kept.numbered
    simp only [List.map_cons] at count
    simp only [Loop.perform, additions_append, List.map_cons, List.map_append, List.range_succ,
      ← count]
    rfl
  front := by
    simp only [Loop.perform, Reactor.addSocket]
    rw [List.getElem?_append_left (List.getElem?_eq_some_iff.mp kept.front).1]
    exact kept.front
  requested := by simpa [Loop.perform, requests] using kept.requested
  once := kept.once
  legal := by
    intro socket member
    have bounds := kept.legal socket member
    exact ⟨bounds.1, Nat.lt_succ_of_lt bounds.2⟩
  deletions := by simpa [Loop.perform, Reactor.addSocket, deedsOf, deletionsRun, requests]
    using kept.deletions
  gone := by simpa [Loop.perform, deedsOf, deletedSockets, deletionsRun] using kept.gone
  order := by simpa [Loop.perform, deedsOf] using kept.order
  dirty := fun _ => rfl
  settled := by
    rintro (here | here) <;> rcases busy with there | ⟨i, there⟩ <;>
      simp [Loop.perform, there] at here
  entered := by
    intro member
    simp only [Loop.perform, List.mem_append, List.mem_singleton, reduceCtorEq, or_false] at member
    exact kept.entered member

theorem request (kept : Kept first events loop) (socket : Nat) (deletion : Deleted)
    (busy : loop.place = .outside ∨ ∃ i, loop.place = .running i) (positive : 0 < socket)
    (bound : socket < loop.nextSocket) (fresh : socket ∉ loop.requested) :
    Kept first (events ++ (loop.perform (.delSocket socket deletion)).2)
      (loop.perform (.delSocket socket deletion)).1 where
  sockets := by simpa [Loop.perform, Reactor.delSocket, deedsOf, deletedCallbacks, additions]
    using kept.sockets
  paired := by simpa [Loop.perform, deedsOf, deletedCallbacks, deletedSockets] using kept.paired
  numbered := by simpa [Loop.perform, additions] using kept.numbered
  front := kept.front
  requested := by
    simp only [Loop.perform, requests_append, List.map_append, kept.requested]
    rfl
  once := by
    simp only [Loop.perform]
    exact List.nodup_append.mpr ⟨kept.once, List.nodup_singleton _,
      fun one member other single => by
        rw [List.mem_singleton] at single
        rintro rfl
        exact fresh (single ▸ member)⟩
  legal := by
    intro other member
    rcases List.mem_append.mp member with old | new
    · exact kept.legal other old
    · obtain rfl := List.mem_singleton.mp new
      exact ⟨positive, bound⟩
  deletions := by
    have moved := kept.deletions.append_right [(socket, deletion)]
    simpa [Loop.perform, Reactor.delSocket, deedsOf, deletionsRun, requests] using moved
  gone := by simpa [Loop.perform, deedsOf, deletedSockets, deletionsRun] using kept.gone
  order := by simpa [Loop.perform, deedsOf] using kept.order
  dirty := fun _ => rfl
  settled := by
    rintro (here | here) <;> rcases busy with there | ⟨i, there⟩ <;>
      simp [Loop.perform, there] at here
  entered := by
    intro member
    simp only [Loop.perform, List.mem_append, List.mem_singleton, reduceCtorEq, or_false] at member
    exact kept.entered member

theorem rebuild (kept : Kept first events loop) {reactor : Reactor Callback Deleted Timer}
    {ran : List Deleted} (rebuilt : loop.reactor.rebuildPollItems = some (reactor, ran)) :
    Kept first (events ++ (deeds loop.pass).map .deed)
      { loop with reactor := reactor, place := .timers } := by
  have separate := kept.distinct
  rw [List.map_append] at separate
  have distinct : (loop.pass.sockets.map Prod.fst).Nodup := separate.of_append_left
  obtain ⟨done, walked, removed⟩ := deletion_removes loop.pass distinct kept.listed
  have shape : reactor.sockets = done.sockets ∧ reactor.delSockets = [] := by
    have aligned : processDelSockets ⟨loop.reactor.sockets, loop.reactor.delSockets,
        loop.reactor.closed, []⟩ = some done := walked
    rw [Reactor.rebuildPollItems, aligned] at rebuilt
    obtain ⟨rfl, -⟩ := Prod.mk.inj (Option.some.inj rebuilt)
    exact ⟨rfl, rfl⟩
  obtain ⟨sockets, emptied⟩ := shape
  have newDeeds : deedsOf ((deeds loop.pass).map .deed :
      List (Event Callback Deleted Timer)) = deeds loop.pass := by
    simp [deedsOf, List.filterMap_map]
  have newAdditions : additions ((deeds loop.pass).map .deed :
      List (Event Callback Deleted Timer)) = [] := by
    simp [additions, List.filterMap_map]
  have newRequests : requests ((deeds loop.pass).map .deed :
      List (Event Callback Deleted Timer)) = [] := by
    simp [requests, List.filterMap_map]
  have parts : (done.sockets ++ deletedCallbacks (deeds loop.pass)).Perm loop.pass.sockets := by
    calc done.sockets ++ deletedCallbacks (deeds loop.pass)
        |>.Perm (unmarked loop.pass.sockets loop.pass.delSockets ++
          marked loop.pass.sockets loop.pass.delSockets) := removed.left.append removed.callbacks
      _ |>.Perm (marked loop.pass.sockets loop.pass.delSockets ++
          unmarked loop.pass.sockets loop.pass.delSockets) := List.perm_append_comm
      _ |>.Perm loop.pass.sockets := by
          have split := List.filter_append_perm
            (fun pair : Nat × Callback => decide (pair.1 ∈ loop.pass.delSockets.map Prod.fst))
            loop.pass.sockets
          rw [marked, unmarked]
          simpa only [decide_not] using split
  have marks := kept.marks_distinct
  rw [List.map_append] at marks
  have keys : (deletedSockets (deeds loop.pass)).Perm
      ((deletionsRun (deeds loop.pass)).map Prod.fst) := by
    refine List.Perm.trans ?_ (removed.ran.map Prod.fst).symm
    refine (List.perm_ext_iff_of_nodup removed.once marks.of_append_right).mpr (fun socket => ?_)
    rw [removed.deleted.mem_iff]
    simp only [marked, List.mem_map, List.mem_filter, decide_eq_true_eq]
    constructor
    · rintro ⟨pair, ⟨-, entry, member, same⟩, rfl⟩
      exact ⟨entry, member, same⟩
    · rintro ⟨entry, member, rfl⟩
      obtain ⟨j, callback, -, found⟩ := kept.listed entry member
      exact ⟨(entry.1, callback), ⟨List.mem_of_getElem? found, entry, member, rfl⟩, rfl⟩
  exact
    { sockets := by
        simp only [additions_append, deedsOf_append, newDeeds, newAdditions, List.append_nil,
          deletedCallbacks_append, sockets]
        calc done.sockets ++ (deletedCallbacks (deedsOf events) ++
              deletedCallbacks (deeds loop.pass))
            |>.Perm ((done.sockets ++ deletedCallbacks (deeds loop.pass)) ++
              deletedCallbacks (deedsOf events)) := by
              rw [List.append_assoc]
              exact List.perm_append_comm.append_left _
          _ |>.Perm (loop.reactor.sockets ++ deletedCallbacks (deedsOf events)) :=
              parts.append_right _
          _ |>.Perm ((0, first) :: additions events) := kept.sockets
      paired := by
        simp only [deedsOf_append, newDeeds, deletedCallbacks_append, deletedSockets_append,
          List.map_append, kept.paired, removed.paired]
      numbered := by simpa [newAdditions] using kept.numbered
      front := by
        simp only [sockets]
        exact removed.first.trans kept.front
      requested := by simpa [newRequests] using kept.requested
      once := kept.once
      legal := kept.legal
      deletions := by
        simp only [requests_append, deedsOf_append, newDeeds, newRequests, List.append_nil,
          deletionsRun_append, emptied]
        exact (removed.ran.append_left _).trans kept.deletions
      gone := by
        simp only [deedsOf_append, newDeeds, deletedSockets_append, deletionsRun_append,
          List.map_append]
        exact kept.gone.append keys
      order := by
        simp only [deedsOf_append, newDeeds]
        exact kept.order.append removed.order
      dirty := fun some_left => absurd emptied some_left
      settled := fun _ => emptied
      entered := by simp }

theorem step (kept : Kept first events loop) {action : Action Callback Deleted Timer}
    (proper : Proper loop action) (turn : Turn loop action after emitted) :
    Kept first (events ++ emitted) after := by
  cases turn with
  | arrive socket =>
    refine kept.idle rfl rfl rfl rfl rfl rfl rfl rfl kept.settled ?_
    simpa using kept.entered
  | request request busy =>
    cases request with
    | addSocket callback => exact kept.add callback busy
    | delSocket socket deletion =>
      obtain ⟨positive, bound, fresh⟩ := proper
      exact kept.request socket deletion busy positive bound fresh
    | runClosureAt timestamp timer =>
      refine kept.idle rfl rfl rfl rfl rfl rfl rfl rfl kept.settled ?_
      simpa [Loop.perform] using kept.entered
    | setShouldQuit =>
      refine kept.idle rfl rfl rfl rfl rfl rfl rfl rfl kept.settled ?_
      simpa [Loop.perform] using kept.entered
  | rebuild here dirty reactor ran rebuilt => exact kept.rebuild rebuilt
  | clean here clean =>
    refine kept.idle rfl rfl rfl rfl rfl rfl rfl rfl (fun _ => ?_) (by simp)
    by_contra some_left
    have dirty := kept.dirty some_left
    rw [clean] at dirty
    cases dirty
  | timers here now =>
    refine kept.idle rfl rfl rfl rfl rfl ?_ ?_ ?_ (fun _ => kept.settled (.inl here)) (by simp)
    · simp [additions, List.filterMap_map]
    · simp [requests, List.filterMap_map]
    · simp [deedsOf, List.filterMap_map]
  | ended here outcome place ends =>
    rcases ends with ⟨-, rfl⟩ | ⟨-, rfl⟩ <;>
      exact kept.idle rfl rfl rfl rfl rfl rfl rfl rfl (by simp) (by simp)
  | _ => exact kept.idle rfl rfl rfl rfl rfl rfl rfl rfl (by simp) (by simp)

end Kept

theorem kept_of_run (run : Run (machine Deleted Timer first) Proper events loop) :
    Kept first events loop := by
  refine Steps.invariant (Kept first) Kept.start ?_ run
  intro events loop action emitted after _ kept proper fired
  exact kept.step proper (step_turn fired)

/-- The places between a poll and the end of its dispatch round. -/
def InRound : Place → Prop
  | .dispatch _ => True
  | .receiving _ _ => True
  | .running _ => True
  | .faulted => True
  | _ => False

theorem inRound_turn {action : Action Callback Deleted Timer} (turn : Turn loop action after emitted)
    (inside : InRound loop.place) : InRound after.place ∨ .roundDone ∈ emitted := by
  cases turn with
  | arrive socket => exact .inl inside
  | request request busy => cases request <;> exact .inl inside
  | done i here none_left => exact .inr (List.mem_singleton_self _)
  | enter here | quit here | clean here | timers here | ready here | error here =>
    rw [here] at inside
    exact absurd inside id
  | rebuild here dirty reactor ran rebuilt | overrun here dirty failed =>
    rw [here] at inside
    exact absurd inside id
  | ended here outcome place ends =>
    rw [here] at inside
    exact absurd inside id
  | _ => exact .inl trivial

theorem round_of_run (run : Run (machine Deleted Timer first) Proper events loop) :
    ∀ before socket deletion rest, events = before ++ .requested socket deletion :: rest →
      .entered ∈ before → .roundDone ∉ rest → InRound loop.place := by
  refine Steps.invariant (fun events (loop : Loop Callback Deleted Timer) =>
    ∀ before socket deletion rest, events = before ++ .requested socket deletion :: rest →
      .entered ∈ before → .roundDone ∉ rest → InRound loop.place) ?_ ?_ run
  · intro before socket deletion rest empty
    simp at empty
  · intro events loop action emitted after run round proper fired before socket deletion rest
      whole entered undone
    have turn := step_turn fired
    rcases append_split whole with ⟨tail, left, rfl⟩ | ⟨pre, left, right⟩
    · have inside := round before socket deletion tail left entered
        (fun member => undone (List.mem_append_left _ member))
      rcases inRound_turn turn inside with still | done
      · exact still
      · exact absurd (List.mem_append_right _ done) undone
    · have member : .requested socket deletion ∈ emitted := right ▸ by simp
      cases turn with
      | request request busy =>
        have early : .entered ∈ events := by
          rw [left, List.mem_append] at entered
          rcases entered with old | new
          · exact old
          · have among : .entered ∈ (loop.perform request).2 := right ▸ List.mem_append_left _ new
            cases request <;> simp [Loop.perform] at among
        rcases busy with outside | ⟨i, running⟩
        · exact absurd outside ((kept_of_run run).entered early)
        · cases request <;> simp [Loop.perform, running, InRound]
      | _ => simp at member

structure Timely (before : List (Event Callback Deleted Timer)) (socket : Nat) (deletion : Deleted)
    (rest : List (Event Callback Deleted Timer)) : Prop where
  pending : .deed (.deleteSocket socket) ∉ before
  afterRound : .entered ∈ before → ∀ mid later,
    rest = mid ++ .deed (.deleteSocket socket) :: later → .roundDone ∈ mid
  beforePoll : ∀ mid outcome later, rest = mid ++ .polled outcome :: later →
    .deed (.deleteSocket socket) ∈ mid ∧ .deed (.runDeletion socket deletion) ∈ mid

structure RightSockets (first : Callback) (events : List (Event Callback Deleted Timer))
    (loop : Loop Callback Deleted Timer) : Prop where
  /-- A callback runs for the poll item of its own socket, and both exist. -/
  matched : ∀ before index polled socket callback rest,
    events = before ++ .ran index polled socket callback :: rest →
      polled = socket ∧ ((socket, callback) = (0, first) ∨ .added socket callback ∈ before) ∧
        .deed (.deleteSocket socket) ∉ before ∧
        ∀ other, .deed (.deleteCallback socket other) ∉ before
  timely : ∀ before socket deletion rest, events = before ++ .requested socket deletion :: rest →
    Timely before socket deletion rest
  deletedOnce : (deletedSockets (deedsOf events)).Nodup
  callbacks : (deletedCallbacks (deedsOf events)).map Prod.fst = deletedSockets (deedsOf events)
  deletionsOnce : ((deletionsRun (deedsOf events)).map Prod.fst).Nodup
  deletionsOwn : ∀ socket deletion, .deed (.runDeletion socket deletion) ∈ events →
    .requested socket deletion ∈ events
  deletionsAfter : DeletesFirst (deedsOf events)
  onlyRequested : ∀ before socket rest, events = before ++ .deed (.deleteSocket socket) :: rest →
    ∃ deletion, .requested socket deletion ∈ before
  kept : ∀ socket callback, (socket, callback) = (0, first) ∨ .added socket callback ∈ events →
    (∀ deletion, .requested socket deletion ∉ events) →
      (socket, callback) ∈ loop.reactor.sockets

theorem Kept.requested_iff (kept : Kept first events loop) {socket : Nat} :
    socket ∈ loop.requested ↔ ∃ deletion, .requested socket deletion ∈ events := by
  rw [← kept.requested, List.mem_map]
  constructor
  · rintro ⟨⟨same, deletion⟩, member, rfl⟩
    exact ⟨deletion, mem_requests.mp member⟩
  · rintro ⟨deletion, member⟩
    exact ⟨_, mem_requests.mpr member, rfl⟩

theorem Kept.done_of_poll (kept : Kept first events loop) (here : loop.place = .poll) {socket : Nat}
    {deletion : Deleted} (asked : .requested socket deletion ∈ events) :
    .deed (.deleteSocket socket) ∈ events ∧ .deed (.runDeletion socket deletion) ∈ events := by
  have ran := mem_requests.mpr asked
  rw [← kept.deletions.mem_iff, kept.settled (.inr here), List.append_nil] at ran
  constructor
  · have deleted : socket ∈ deletedSockets (deedsOf events) :=
      kept.gone.mem_iff.mpr (List.mem_map_of_mem ran)
    exact mem_deedsOf.mp (deleteSocket_mem.mp deleted)
  · exact mem_deedsOf.mp (runDeletion_mem.mp ran)

theorem matched_of_run (run : Run (machine Deleted Timer first) Proper events loop)
    {before rest : List (Event Callback Deleted Timer)} {index polled socket : Nat}
    {callback : Callback} (shape : events = before ++ .ran index polled socket callback :: rest) :
    polled = socket ∧ ((socket, callback) = (0, first) ∨ .added socket callback ∈ before) ∧
      .deed (.deleteSocket socket) ∉ before ∧
      ∀ other, .deed (.deleteCallback socket other) ∉ before := by
  subst shape
  obtain ⟨earlier, pre, post, later, state, action, final, steps, proper, fired, left, -, -⟩ :=
    run.occurs
  have kept := kept_of_run steps
  have turn := step_turn fired
  generalize emission : pre ++ .ran index polled socket callback :: post = emitted at turn
  have member : .ran index polled socket callback ∈ emitted := emission ▸ by simp
  cases turn with
  | ran i here item found flagged pair held =>
    obtain ⟨rfl, rfl, rfl, rfl⟩ : index = i ∧ polled = item.socket ∧ socket = pair.1 ∧
        callback = pair.2 := by simpa using member
    have alone : pre = [] := by
      have size := congrArg List.length emission
      simp at size
      exact List.length_eq_zero_iff.mp (by omega)
    subst alone
    rw [List.append_nil] at left
    subst left
    have inside := List.mem_of_getElem? held
    have alive := kept.undeleted inside
    refine ⟨(listening_of_run steps).matched found held, ?_, ?_, ?_⟩
    · rcases List.mem_cons.mp (kept.sockets.subset (List.mem_append_left _ inside)) with
        start | added
      · exact .inl start
      · exact .inr (mem_additions.mp added)
    · exact fun deleted => alive (deleteSocket_mem.mpr (mem_deedsOf.mpr deleted))
    · intro other deleted
      apply alive
      rw [← kept.paired]
      have gone := deleteCallback_mem.mpr (mem_deedsOf.mpr deleted)
      exact List.mem_map.mpr ⟨_, gone, rfl⟩
  | request request busy => cases request <;> simp [Loop.perform] at member
  | _ => simp at member

theorem timely_of_run (run : Run (machine Deleted Timer first) Proper events loop)
    {before rest : List (Event Callback Deleted Timer)} {socket : Nat} {deletion : Deleted}
    (shape : events = before ++ .requested socket deletion :: rest) :
    Timely before socket deletion rest := by
  subst shape
  obtain ⟨earlier, pre, post, later, state, action, final, steps, proper, fired, left, -, -⟩ :=
    run.occurs
  have kept := kept_of_run steps
  have fresh : socket ∉ state.requested ∧ pre = [] := by
    have turn := step_turn fired
    generalize emission : pre ++ .requested socket deletion :: post = emitted at turn
    have member : .requested socket deletion ∈ emitted := emission ▸ by simp
    cases turn with
    | request request busy =>
      cases request with
      | delSocket other callback =>
        obtain ⟨rfl, rfl⟩ : socket = other ∧ deletion = callback := by
          simpa [Loop.perform] using member
        have size := congrArg List.length emission
        simp [Loop.perform] at size
        exact ⟨proper.2.2, List.length_eq_zero_iff.mp (by omega)⟩
      | _ => simp [Loop.perform] at member
    | _ => simp at member
  obtain ⟨unrequested, rfl⟩ := fresh
  rw [List.append_nil] at left
  subst left
  have undeleted : .deed (.deleteSocket socket) ∉ before := fun deleted =>
    unrequested (kept.requested_of_run (deleteSocket_mem.mpr (mem_deedsOf.mpr deleted)))
  have unran : .deed (.runDeletion socket deletion) ∉ before := by
    intro ran
    have member := runDeletion_mem.mpr (mem_deedsOf.mpr ran)
    apply unrequested
    exact kept.requested_of_run (kept.gone.mem_iff.mpr (List.mem_map_of_mem member))
  exact
    { pending := undeleted
      afterRound := by
        intro entered mid after shape
        subst shape
        rw [← List.cons_append, ← List.append_assoc] at run
        obtain ⟨history, pre, post, later, state, action, final, steps, -, fired, left, -, -⟩ :=
          run.occurs
        have turn := step_turn fired
        generalize emission : pre ++ .deed (.deleteSocket socket) :: post = emitted at turn
        have member : .deed (.deleteSocket socket) ∈ emitted := emission ▸ by simp
        cases turn with
        | rebuild here dirty reactor ran rebuilt =>
          rcases append_split left.symm with ⟨tail, whole, rfl⟩ | ⟨gap, -, wrong⟩
          · by_contra undone
            have inside := round_of_run steps before socket deletion tail whole entered
              (fun done => undone (List.mem_append_left _ done))
            rw [here] at inside
            exact inside
          · have among : .requested socket deletion ∈ (deeds state.pass).map
                (.deed : _ → Event Callback Deleted Timer) := by
              rw [← emission, wrong]
              simp
            simp at among
        | request request busy => cases request <;> simp [Loop.perform] at member
        | _ => simp at member
      beforePoll := by
        intro mid outcome after shape
        subst shape
        rw [← List.cons_append, ← List.append_assoc] at run
        obtain ⟨history, pre, post, later, state, action, final, steps, -, fired, left, -, -⟩ :=
          run.occurs
        have turn := step_turn fired
        generalize emission : pre ++ .polled outcome :: post = emitted at turn
        have member : .polled outcome ∈ emitted := emission ▸ by simp
        have polling : state.place = .poll ∧ emitted.length = 1 := by
          cases turn with
          | ready here | error here => exact ⟨here, rfl⟩
          | ended here => exact ⟨here, rfl⟩
          | request request busy => cases request <;> simp [Loop.perform] at member
          | _ => simp at member
        have alone : pre = [] := by
          have size := congrArg List.length emission
          simp only [List.length_append, List.length_cons, polling.2] at size
          exact List.length_eq_zero_iff.mp (by omega)
        subst alone
        rw [List.append_nil] at left
        subst left
        have asked : .requested socket deletion ∈
            before ++ .requested socket deletion :: mid := by simp
        have done := (kept_of_run steps).done_of_poll polling.1 asked
        simp only [List.mem_append, List.mem_cons, reduceCtorEq, false_or] at done
        exact ⟨done.1.resolve_left undeleted, done.2.resolve_left unran⟩ }

theorem requested_of_deleted (run : Run (machine Deleted Timer first) Proper events loop)
    {before rest : List (Event Callback Deleted Timer)} {socket : Nat}
    (shape : events = before ++ .deed (.deleteSocket socket) :: rest) :
    ∃ deletion, .requested socket deletion ∈ before := by
  subst shape
  obtain ⟨earlier, pre, post, later, state, action, final, steps, proper, fired, left, -, -⟩ :=
    run.occurs
  have turn := step_turn fired
  have kept := kept_of_run (steps.next proper fired)
  have deleted : socket ∈ deletedSockets
      (deedsOf (earlier ++ (pre ++ .deed (.deleteSocket socket) :: post))) :=
    deleteSocket_mem.mpr (mem_deedsOf.mpr (by simp))
  generalize emission : pre ++ .deed (.deleteSocket socket) :: post = emitted at turn kept deleted
  have member : .deed (.deleteSocket socket) ∈ emitted := emission ▸ by simp
  cases turn with
  | rebuild here dirty reactor ran rebuilt =>
    obtain ⟨deletion, asked⟩ := kept.requested_iff.mp (kept.requested_of_run deleted)
    refine ⟨deletion, left ▸ List.mem_append_left _ ?_⟩
    rcases List.mem_append.mp asked with old | new
    · exact old
    · simp at new
  | request request busy => cases request <;> simp [Loop.perform] at member
  | _ => simp at member

/-- The reactor dispatches to the right sockets and deletes just the marked ones,
each in time. -/
theorem right_sockets (first : Callback) (events : List (Event Callback Deleted Timer))
    (loop : Loop Callback Deleted Timer)
    (run : Run (machine Deleted Timer first) Proper events loop) :
    RightSockets first events loop := by
  have kept := kept_of_run run
  have marks := kept.marks_distinct
  rw [List.map_append] at marks
  have ranOnce := marks.of_append_left
  exact
    { matched := fun before index polled socket callback rest shape => matched_of_run run shape
      timely := fun before socket deletion rest shape => timely_of_run run shape
      deletedOnce := kept.gone.nodup_iff.mpr ranOnce
      callbacks := kept.paired
      deletionsOnce := ranOnce
      deletionsOwn := by
        intro socket deletion ran
        have member := runDeletion_mem.mpr (mem_deedsOf.mpr ran)
        exact mem_requests.mp (kept.deletions.subset (List.mem_append_left _ member))
      deletionsAfter := kept.order
      onlyRequested := fun before socket rest shape => requested_of_deleted run shape
      kept := by
        intro socket callback known unrequested
        have member : (socket, callback) ∈ (0, first) :: additions events := by
          rcases known with start | added
          · exact List.mem_cons.mpr (.inl start)
          · exact List.mem_cons_of_mem _ (mem_additions.mpr added)
        rcases List.mem_append.mp (kept.sockets.mem_iff.mpr member) with inside | deleted
        · exact inside
        · have gone : socket ∈ deletedSockets (deedsOf events) := by
            rw [← kept.paired]
            exact List.mem_map_of_mem deleted
          obtain ⟨deletion, asked⟩ := kept.requested_iff.mp (kept.requested_of_run gone)
          exact absurd asked (unrequested deletion) }

end Keep

instance (loop : Loop Callback Deleted Timer) (action : Action Callback Deleted Timer) :
    Decidable (Proper loop action) :=
  match action with
  | .request (.delSocket _ _) => inferInstanceAs (Decidable (_ ∧ _ ∧ _))
  | .request (.addSocket _) | .request (.runClosureAt _ _) | .request .setShouldQuit => isTrue trivial
  | .arrive _ | .enter | .loopTop | .timers _ | .poll _ | .dispatch | .receive | .finish =>
    isTrue trivial

/-- The first callback adds two sockets and, in a later round, has one deleted. -/
def grows : List (Action Nat Nat Nat) :=
  let round (socket : Nat) (flags : List Bool) (requests : List (Request Nat Nat Nat)) :
      List (Action Nat Nat Nat) :=
    [.loopTop, .timers 0, .arrive socket, .poll (.ready flags), .dispatch, .receive] ++
      requests.map .request ++ [.finish]
  [.enter] ++ round 0 [true] [.addSocket 5, .addSocket 6] ++ [.dispatch] ++
    round 0 [true, false, false] [.delSocket 1 9] ++ [.dispatch, .dispatch, .dispatch] ++
    [.loopTop, .timers 0, .arrive 2, .poll (.ready [false, true]), .dispatch, .dispatch]

/-- The run in which the last socket takes the place of the deleted one. -/
theorem right_sockets_grows :
    let final := reached ((machine Nat Nat 4).guarded Proper) grows
    .ran 1 2 2 6 ∈ final.2 ∧ .deed (.deleteSocket 1) ∈ final.2 ∧
      RightSockets 4 final.2 final.1 := by
  have run : Run (machine Nat Nat 4) Proper _ _ :=
    Steps.of_guarded (run_reached ((machine Nat Nat 4).guarded Proper) grows)
  exact ⟨by decide +kernel, by decide +kernel, right_sockets 4 _ _ run⟩

end Rpcz.DispatchRounds
