import Rpcz.DispatchRounds
import Rpcz.Lifetimes

/-!
Who deletes what in reactor.cc. The reactor owns its sockets and the closures of
callback.hpp it is given: a permanent one for each socket, and closures that
delete themselves for the sockets to delete and for the timers.
-/

namespace Rpcz.ClosureLifetimes
open Automaton ReactorLoop SocketDeletion DeletionLoop ReactorRun Lifetimes
open DispatchRounds hiding requests

/-- `closure`. `id` tells the objects apart. -/
structure Closure where
  id : Nat
  selfDeleting : Bool
deriving DecidableEq

def newCallback (id : Nat) : Closure := ⟨id, true⟩

def newPermanentCallback (id : Nat) : Closure := ⟨id, false⟩

inductive Object where
  | socket (socket : Nat)
  | closure (id : Nat)
deriving DecidableEq

def Closure.object (closure : Closure) : Object := .closure closure.id

/-- `run()`. A closure that deletes itself does so behind its function. -/
def Closure.run (closure : Closure) : List (Op Object) :=
  .use closure.object :: if closure.selfDeleting then [.delete closure.object] else []

/-- The reactor's owner. `leaked` are the closures nobody points to any more. -/
structure Owner where
  loop : Loop Closure Closure Closure
  nextClosure : Nat
  leaked : List Closure
  destroyed : Bool

inductive Action where
  /-- A request creates the closure it passes. -/
  | loop (action : ReactorRun.Action Unit Unit Unit)
  /-- `~reactor`. -/
  | destroy
deriving DecidableEq

/-- The closures are created as broker_thread.cc creates them. -/
def supplied (id : Nat) : Request Unit Unit Unit → Request Closure Closure Closure
  | .addSocket _ => .addSocket (newPermanentCallback id)
  | .delSocket socket _ => .delSocket socket (newCallback id)
  | .runClosureAt timestamp _ => .runClosureAt timestamp (newCallback id)
  | .setShouldQuit => .setShouldQuit

def supply (id : Nat) : ReactorRun.Action Unit Unit Unit → ReactorRun.Action Closure Closure Closure
  | .request request => .request (supplied id request)
  | .arrive socket => .arrive socket
  | .enter => .enter
  | .loopTop => .loopTop
  | .timers now => .timers now
  | .poll outcome => .poll outcome
  | .dispatch => .dispatch
  | .receive => .receive
  | .finish => .finish

def deedOps : Deed Closure Closure → List (Op Object)
  | .deleteSocket socket => [.delete (.socket socket)]
  | .deleteCallback _ callback => [.delete callback.object]
  | .runDeletion _ deletion => deletion.run

def eventOps : Event Closure Closure Closure → List (Op Object)
  | .deed deed => deedOps deed
  | .timerRun timer => timer.run
  | .ran _ _ _ callback => callback.run
  | .received socket => [.use (.socket socket)]
  | _ => []

def pairObjects (pair : Nat × Closure) : List Object := [.socket pair.1, pair.2.object]

namespace Owner

def new : Owner := ⟨.new (newPermanentCallback 0), 1, [], false⟩

/-- What is created for a request, and the sockets `zmq_poll` reads. -/
def before (owner : Owner) : ReactorRun.Action Unit Unit Unit → List (Op Object)
  | .request (.addSocket _) =>
    [.new (.socket owner.loop.nextSocket), .new (.closure owner.nextClosure)]
  | .request (.delSocket _ _) => [.new (.closure owner.nextClosure)]
  | .request (.runClosureAt _ _) => [.new (.closure owner.nextClosure)]
  | .poll _ => owner.loop.reactor.pollItems.map fun item => .use (.socket item.socket)
  | _ => []

/-- What `del_sockets_.clear()` drops. -/
def dropped (owner : Owner) : ReactorRun.Action Unit Unit Unit → List Closure
  | .loopTop =>
    if owner.loop.reactor.shouldQuit = false ∧ owner.loop.reactor.isDirty then
      match processDelSockets owner.loop.pass with
      | some done => done.delSockets.map Prod.snd
      | none => []
    else []
  | _ => []

/-- `~reactor` deletes the pairs of `sockets_` and the closures of
`closure_run_map_`, but not those of `del_sockets_`. -/
def destroy (owner : Owner) : Owner × List (Op Object) :=
  ({ owner with
      loop := { owner.loop with
        reactor := { owner.loop.reactor with
          sockets := [], delSockets := [], pollItems := [], closureRunMap := [] } }
      leaked := owner.leaked ++ owner.loop.reactor.delSockets.map Prod.snd
      destroyed := true },
    (owner.loop.reactor.sockets.flatMap pairObjects ++
      (timersIn owner.loop.reactor.closureRunMap).map Closure.object).map .delete)

def moved (owner : Owner) (action : ReactorRun.Action Unit Unit Unit)
    (loop : Loop Closure Closure Closure) : Owner :=
  { owner with
    loop := loop
    nextClosure := owner.nextClosure + 1
    leaked := owner.leaked ++ owner.dropped action }

def step (owner : Owner) : Action → Option (Owner × List (Op Object))
  | .loop action =>
    if owner.destroyed then none
    else (owner.loop.step (supply owner.nextClosure action)).map fun result =>
      (owner.moved action result.1, owner.before action ++ result.2.flatMap eventOps)
  | .destroy =>
    if owner.destroyed = false ∧ (owner.loop.place = .outside ∨ owner.loop.place = .returned) then
      some owner.destroy
    else none

def pending (owner : Owner) : List Closure :=
  owner.loop.reactor.delSockets.map Prod.snd ++
    (timersIn owner.loop.reactor.closureRunMap ++ owner.leaked)

def held (owner : Owner) : List Object :=
  owner.loop.reactor.sockets.flatMap pairObjects ++ owner.pending.map Closure.object

end Owner

def machine : Machine Owner Action (Op Object) := ⟨.new, Owner.step⟩

def created : List (Op Object) := [.new (.socket 0), .new (.closure 0)]

/-- Deletion is requested of an added socket other than the first, once. -/
def Orderly (owner : Owner) : Action → Prop
  | .loop action => Proper owner.loop (supply owner.nextClosure action)
  | .destroy => True

/-! ## The walk of `process_del_sockets` -/

theorem run_does {closure : Closure} (self : closure.selfDeleting = true) :
    Does closure.run [closure.object] [] := by
  rw [Closure.run, if_pos self]
  have used : Does [.use closure.object] [closure.object] [closure.object] :=
    does_use (List.mem_singleton_self _)
  exact used.seq does_delete

def passHeld (pass : DelPass Closure Closure) : List Object :=
  pass.sockets.flatMap pairObjects ++ pass.delSockets.map (fun entry => entry.2.object)

section Walk
variable {pass done : DelPass Closure Closure} {pair last : Nat × Closure} {i : Nat}

theorem removeDeeds_does (selfs : ∀ entry ∈ pass.delSockets, entry.2.selfDeleting = true) :
    Does ((removeDeeds pass pair).flatMap deedOps)
      (pairObjects pair ++ (pass.delSockets.filter (fun entry => entry.1 = pair.1)).map
        (fun entry => entry.2.object)) [] := by
  have socket : Does (deedOps (.deleteSocket pair.1)) [.socket pair.1] [] := does_delete
  have callback : Does (deedOps (.deleteCallback pair.1 pair.2)) [pair.2.object] [] := does_delete
  have deletions : Does (((pass.delSockets.filter (fun entry => entry.1 = pair.1)).map
      (fun entry => Deed.runDeletion entry.1 entry.2)).flatMap deedOps)
      ((pass.delSockets.filter (fun entry => entry.1 = pair.1)).map (fun entry => entry.2.object))
      [] := by
    rw [List.flatMap_map, ← List.flatMap_singleton' (List.map _ _), List.flatMap_map]
    apply Does.each
    intro entry listed
    exact run_does (selfs entry (List.mem_of_mem_filter listed))
  rw [removeDeeds, List.flatMap_cons, List.flatMap_cons]
  exact (socket.frame _).seq ((callback.frame _).seq deletions)

theorem remove_held (here : pass.sockets[i]? = some pair) (final : pass.sockets.getLast? = some last) :
    (passHeld pass).Perm
      ((pairObjects pair ++ (pass.delSockets.filter (fun entry => entry.1 = pair.1)).map
        (fun entry => entry.2.object)) ++ passHeld (pass.remove i pair last)) := by
  have sockets := (fill_perm here final).flatMap_right pairObjects
  have marks := (List.filter_append_perm (fun entry => decide (entry.1 = pair.1))
    pass.delSockets).map (fun entry => entry.2.object)
  rw [List.flatMap_append, List.flatMap_singleton] at sockets
  rw [List.map_append] at marks
  apply List.perm_iff_count.mpr
  intro object
  have both := sockets.count_eq object
  have all := marks.count_eq object
  simp only [List.count_append] at both all
  simp only [passHeld, DelPass.remove, List.count_append, ne_eq, decide_not]
  omega

theorem walk_does (walked : processDelFrom i pass = some done)
    (selfs : ∀ entry ∈ pass.delSockets, entry.2.selfDeleting = true) :
    Does ((deedsFrom i pass).flatMap deedOps) (passHeld pass) (passHeld done) := by
  induction i generalizing pass with
  | zero =>
    cases walked
    exact .nothing
  | succ i ih =>
    rw [processDelFrom] at walked
    split at walked
    · next pair last here final =>
      rw [deedsFrom, here, final]
      simp only
      have part : Does ((removeDeeds pass pair).flatMap deedOps) (passHeld pass)
          (passHeld (pass.remove (i + 1) pair last)) :=
        ((removeDeeds_does selfs).frame _).perm (remove_held here final) (.refl _)
      split at walked
      · next untouched =>
        rw [if_pos untouched]
        exact ih walked selfs
      · next found =>
        rw [if_neg found]
        split at walked
        · next emptied =>
          rw [if_pos emptied]
          cases walked
          exact part
        · next more =>
          rw [if_neg more, List.flatMap_append]
          apply part.seq
          apply ih walked
          intro entry listed
          exact selfs entry (List.mem_of_mem_filter listed)
    · cases walked

end Walk

theorem walk_marks {pass done : DelPass Closure Closure} {i : Nat}
    (walked : processDelFrom i pass = some done) : done.delSockets ⊆ pass.delSockets := by
  induction i generalizing pass with
  | zero =>
    cases walked
    exact List.Subset.refl _
  | succ i ih =>
    rw [processDelFrom] at walked
    split at walked
    · split at walked
      · exact ih walked
      · split at walked
        · cases walked
          exact List.filter_subset_self _
        · exact List.Subset.trans (ih walked) (List.filter_subset_self _)
    · cases walked

theorem pass_marks {pass done : DelPass Closure Closure} (walked : processDelSockets pass = some done) :
    done.delSockets ⊆ pass.delSockets := by
  rw [processDelSockets] at walked
  split at walked
  · cases walked
    exact List.Subset.refl _
  · split at walked
    · cases walked
      exact List.Subset.refl _
    · exact walk_marks walked

theorem deeds_does {pass done : DelPass Closure Closure} (walked : processDelSockets pass = some done)
    (selfs : ∀ entry ∈ pass.delSockets, entry.2.selfDeleting = true) :
    Does ((deeds pass).flatMap deedOps) (passHeld pass) (passHeld done) := by
  rw [processDelSockets] at walked
  rw [deeds]
  split at walked
  · next idle =>
    cases walked
    rw [if_pos idle]
    exact .nothing
  · next marks =>
    rw [if_neg marks]
    split at walked
    · next absent =>
      cases walked
      rw [if_pos absent]
      exact .nothing
    · next inhabited =>
      rw [if_neg inhabited]
      exact walk_does walked selfs

def Spent (ops : List (Op Object)) : Prop := ∀ object, .use object ∈ ops → .delete object ∈ ops

theorem runs_spent (closures : List Closure)
    (selfs : ∀ closure ∈ closures, closure.selfDeleting = true) :
    Spent (closures.flatMap Closure.run) := by
  intro object used
  obtain ⟨closure, listed, mine⟩ := List.mem_flatMap.mp used
  apply List.mem_flatMap.mpr
  refine ⟨closure, listed, ?_⟩
  rw [Closure.run, if_pos (selfs closure listed)] at mine ⊢
  simp only [List.mem_cons, Op.use.injEq, reduceCtorEq, List.not_mem_nil, or_false] at mine
  rw [mine]
  exact List.mem_cons_of_mem _ (List.mem_singleton_self _)

theorem Spent.append {first second : List (Op Object)} (early : Spent first) (late : Spent second) :
    Spent (first ++ second) := by
  intro object used
  rcases List.mem_append.mp used with one | two
  · exact List.mem_append_left _ (early object one)
  · exact List.mem_append_right _ (late object two)

theorem removeDeeds_spent {pass : DelPass Closure Closure} {pair : Nat × Closure}
    (selfs : ∀ entry ∈ pass.delSockets, entry.2.selfDeleting = true) :
    Spent ((removeDeeds pass pair).flatMap deedOps) := by
  have deletions : Spent (((pass.delSockets.filter (fun entry => entry.1 = pair.1)).map
      Prod.snd).flatMap Closure.run) := by
    apply runs_spent
    intro closure listed
    obtain ⟨entry, inside, rfl⟩ := List.mem_map.mp listed
    exact selfs entry (List.mem_of_mem_filter inside)
  have pairs : Spent [.delete (.socket pair.1), .delete pair.2.object] := by
    intro object used
    simp at used
  have whole := pairs.append deletions
  simpa only [removeDeeds, List.flatMap_cons, List.flatMap_map, deedOps, List.singleton_append,
    List.cons_append, List.nil_append] using whole

theorem walk_spent {pass : DelPass Closure Closure} {i : Nat}
    (selfs : ∀ entry ∈ pass.delSockets, entry.2.selfDeleting = true) :
    Spent ((deedsFrom i pass).flatMap deedOps) := by
  induction i generalizing pass with
  | zero =>
    intro object used
    cases used
  | succ i ih =>
    rw [deedsFrom]
    split
    · split
      · exact ih selfs
      · split
        · exact removeDeeds_spent selfs
        · rw [List.flatMap_append]
          apply (removeDeeds_spent selfs).append
          apply ih
          intro entry listed
          exact selfs entry (List.mem_of_mem_filter listed)
    · intro object used
      cases used

theorem deeds_spent (pass : DelPass Closure Closure)
    (selfs : ∀ entry ∈ pass.delSockets, entry.2.selfDeleting = true) :
    Spent ((deeds pass).flatMap deedOps) := by
  rw [deeds]
  split
  · intro object used
    cases used
  · split
    · intro object used
      cases used
    · exact walk_spent selfs

/-! ## One step -/

structure Kinds (owner : Owner) : Prop where
  permanent : ∀ pair ∈ owner.loop.reactor.sockets, pair.2.selfDeleting = false
  selfDeleting : ∀ closure ∈ owner.pending, closure.selfDeleting = true
  listening : Listening owner.loop
  receiving : ∀ i socket, owner.loop.place = .receiving i socket →
    socket ∈ owner.loop.reactor.sockets.map Prod.fst

structure Owns (heap : Heap Object) (owner : Owner) : Prop where
  holds : heap.live.Perm owner.held
  sockets : ∀ socket, .socket socket ∈ heap.known → socket < owner.loop.nextSocket
  closures : ∀ id, .closure id ∈ heap.known → id < owner.nextClosure

section Step
variable {owner after : Owner} {heap : Heap Object} {action : Action} {ops emitted : List (Op Object)}

theorem Owns.does (owns : Owns heap owner) (does : Does ops owner.held after.held)
    (sockets : owner.loop.nextSocket ≤ after.loop.nextSocket)
    (closures : owner.nextClosure ≤ after.nextClosure) :
    ∃ next, Steps Lifetimes.machine anyStep heap ops next ∧ Owns next after := by
  obtain ⟨next, steps, kept, same⟩ := does heap [] (by simpa using owns.holds)
  refine ⟨next, steps, by simpa using kept, ?_, ?_⟩
  · intro socket known
    rw [same] at known
    exact Nat.lt_of_lt_of_le (owns.sockets socket known) sockets
  · intro id known
    rw [same] at known
    exact Nat.lt_of_lt_of_le (owns.closures id known) closures

theorem insertClosure_timers (timestamp : UInt64) (closure : Closure)
    (closures : List (UInt64 × List Closure)) :
    (timersIn (insertClosure timestamp closure closures)).Perm (closure :: timersIn closures) := by
  induction closures with
  | nil => exact .refl _
  | cons entry rest ih =>
    obtain ⟨key, mine⟩ := entry
    rw [insertClosure]
    split
    · exact .refl _
    · split
      · simp only [timersIn, List.flatMap_cons, List.append_assoc, List.singleton_append]
        exact List.perm_middle
      · have later := ih.append_left mine
        exact later.trans List.perm_middle

theorem rebuilt_pass {reactor : Reactor Closure Closure Closure} {ran : List Closure}
    (rebuilt : owner.loop.reactor.rebuildPollItems = some (reactor, ran)) :
    ∃ done, processDelSockets owner.loop.pass = some done ∧ reactor.sockets = done.sockets ∧
      reactor.delSockets = [] ∧ reactor.closureRunMap = owner.loop.reactor.closureRunMap := by
  rw [Reactor.rebuildPollItems] at rebuilt
  split at rebuilt
  · cases rebuilt
  · next done walked =>
    obtain ⟨rfl, -⟩ := Prod.mk.inj (Option.some.inj rebuilt)
    exact ⟨done, walked, rfl, rfl, rfl⟩

variable {given : ReactorRun.Action Unit Unit Unit} {loop : Loop Closure Closure Closure}
  {events : List (Event Closure Closure Closure)}

theorem turn_of_step
    (fired : owner.loop.step (supply owner.nextClosure given) = some (loop, events)) :
    Turn owner.loop (supply owner.nextClosure given) loop events := by
  have stepped : (ReactorRun.machine Closure Closure (newPermanentCallback 0)).step owner.loop
      (supply owner.nextClosure given) = some (loop, events) := fired
  exact step_turn stepped

theorem held_moved (sockets : loop.reactor.sockets = owner.loop.reactor.sockets)
    (marks : loop.reactor.delSockets = owner.loop.reactor.delSockets)
    (timers : loop.reactor.closureRunMap = owner.loop.reactor.closureRunMap)
    (none : owner.dropped given = []) : (owner.moved given loop).held = owner.held := by
  simp only [Owner.held, Owner.pending, Owner.moved, sockets, marks, timers, none, List.append_nil]

theorem does_moved (does : Does ops owner.held owner.held) (sockets : loop.reactor.sockets = owner.loop.reactor.sockets)
    (marks : loop.reactor.delSockets = owner.loop.reactor.delSockets)
    (timers : loop.reactor.closureRunMap = owner.loop.reactor.closureRunMap)
    (none : owner.dropped given = []) : Does ops owner.held (owner.moved given loop).held := by
  rw [held_moved sockets marks timers none]
  exact does

theorem socket_held {pair : Nat × Closure} (member : pair ∈ owner.loop.reactor.sockets) :
    pairObjects pair ⊆ owner.held := by
  intro object listed
  exact List.mem_append_left _ (List.mem_flatMap.mpr ⟨pair, member, listed⟩)

theorem polls_does (kinds : Kinds owner) :
    Does (owner.loop.reactor.pollItems.map fun item => Op.use (Object.socket item.socket))
      owner.held owner.held := by
  have used : owner.loop.reactor.pollItems.map (fun item => Object.socket item.socket) ⊆
      owner.held := by
    intro object listed
    obtain ⟨item, member, rfl⟩ := List.mem_map.mp listed
    have known := kinds.listening.built.subset (List.mem_map_of_mem member)
    obtain ⟨pair, inside, same⟩ := List.mem_map.mp known
    rw [← same]
    exact socket_held inside List.mem_cons_self
  have does := does_uses used
  rw [List.map_map] at does
  exact does

theorem dropped_overrun (failed : owner.loop.reactor.rebuildPollItems = none) :
    owner.dropped .loopTop = [] := by
  have stopped : processDelSockets owner.loop.pass = none := by
    rw [Reactor.rebuildPollItems] at failed
    split at failed
    · next walked => exact walked
    · cases failed
  simp [Owner.dropped, stopped]

theorem dropped_rebuild {done : DelPass Closure Closure}
    (runs : owner.loop.reactor.shouldQuit = false) (dirty : owner.loop.reactor.isDirty)
    (walked : processDelSockets owner.loop.pass = some done) :
    owner.dropped .loopTop = done.delSockets.map Prod.snd := by
  simp [Owner.dropped, runs, dirty, walked]

theorem rebuild_does (kinds : Kinds owner) {reactor : Reactor Closure Closure Closure}
    {ran : List Closure} (rebuilt : owner.loop.reactor.rebuildPollItems = some (reactor, ran))
    (runs : owner.loop.reactor.shouldQuit = false) (dirty : owner.loop.reactor.isDirty)
    (same : loop.reactor = reactor) :
    Does ((deeds owner.loop.pass).flatMap deedOps) owner.held (owner.moved .loopTop loop).held := by
  obtain ⟨done, walked, sockets, marks, timers⟩ := rebuilt_pass rebuilt
  have selfs : ∀ entry ∈ owner.loop.pass.delSockets, entry.2.selfDeleting = true := by
    intro entry listed
    exact kinds.selfDeleting entry.2 (List.mem_append_left _ (List.mem_map_of_mem listed))
  have walk : Does ((deeds owner.loop.pass).flatMap deedOps) (passHeld owner.loop.pass)
      (passHeld done) := deeds_does walked selfs
  have dropped := dropped_rebuild runs dirty walked
  have framed := walk.frame ((timersIn owner.loop.reactor.closureRunMap ++
    owner.leaked).map Closure.object)
  apply framed.perm
  · simp only [Owner.held, Owner.pending, passHeld, Loop.pass, List.map_append, List.map_map,
      List.append_assoc]
    exact .refl _
  · apply List.perm_iff_count.mpr
    intro object
    simp only [Owner.held, Owner.pending, Owner.moved, passHeld, same, sockets, marks, timers,
      dropped, List.map_append, List.map_map, List.map_nil, List.nil_append, List.count_append]
    have alike : (fun entry : Nat × Closure => entry.2.object) = Closure.object ∘ Prod.snd := rfl
    rw [alike]
    omega

theorem timers_does (kinds : Kinds owner) (now : UInt64)
    (sockets : loop.reactor.sockets = owner.loop.reactor.sockets)
    (marks : loop.reactor.delSockets = owner.loop.reactor.delSockets)
    (timers : loop.reactor.closureRunMap = notDue now owner.loop.reactor.closureRunMap) :
    Does ((due now owner.loop.reactor.closureRunMap).flatMap Closure.run) owner.held
      (owner.moved (.timers now) loop).held := by
  have parts := due_append_notDue now owner.loop.reactor.closureRunMap
  have ran : Does ((due now owner.loop.reactor.closureRunMap).flatMap Closure.run)
      ((due now owner.loop.reactor.closureRunMap).flatMap fun timer => [timer.object]) [] := by
    apply Does.each
    intro timer listed
    apply run_does
    apply kinds.selfDeleting
    apply List.mem_append_right
    apply List.mem_append_left
    rw [← parts]
    exact List.mem_append_left _ listed
  have framed := ran.frame (owner.moved (.timers now) loop).held
  apply framed.perm _ (.refl _)
  rw [← List.map_eq_flatMap]
  apply List.perm_iff_count.mpr
  intro object
  simp only [Owner.held, Owner.pending, Owner.moved, Owner.dropped, sockets, marks, timers,
    List.append_nil, ← parts, List.map_append, List.count_append]
  omega

theorem runs_of_timers (fired : owner.loop.step .loopTop = some (loop, events))
    (further : loop.place = .timers) : owner.loop.reactor.shouldQuit = false := by
  by_contra asked
  rw [Bool.not_eq_false] at asked
  simp only [Loop.step] at fired
  split at fired
  · rw [Loop.loopTop, if_pos asked] at fired
    obtain ⟨rfl, -⟩ := Prod.mk.inj (Option.some.inj fired)
    cases further
  · cases fired

theorem turn_does (kinds : Kinds owner)
    (fired : owner.loop.step (supply owner.nextClosure given) = some (loop, events))
    (idle : ∀ request, given ≠ .request request) :
    Does (owner.before given ++ events.flatMap eventOps) owner.held
      (owner.moved given loop).held := by
  have turn := turn_of_step fired
  cases given with
  | request request => exact absurd rfl (idle request)
  | arrive socket =>
    cases turn
    exact does_moved .nothing rfl rfl rfl rfl
  | enter =>
    cases turn
    exact does_moved .nothing rfl rfl rfl rfl
  | loopTop =>
    cases turn with
    | quit here quits => exact does_moved .nothing rfl rfl rfl (by simp [Owner.dropped, quits])
    | clean here clean => exact does_moved .nothing rfl rfl rfl (by simp [Owner.dropped, clean])
    | overrun here dirty failed =>
      exact does_moved .nothing rfl rfl rfl (dropped_overrun failed)
    | rebuild here dirty reactor ran rebuilt =>
      rw [List.flatMap_map]
      exact rebuild_does kinds rebuilt (runs_of_timers fired rfl) dirty rfl
  | timers now =>
    cases turn with
    | timers here now =>
      rw [List.flatMap_map]
      exact timers_does kinds now rfl rfl rfl
  | poll outcome =>
    have polls : Does (owner.before (.poll outcome) ++ []) owner.held owner.held := by
      rw [List.append_nil]
      exact polls_does kinds
    cases turn with
    | ready here flags reported => exact does_moved polls rfl rfl rfl rfl
    | error here => exact does_moved polls rfl rfl rfl rfl
    | ended here outcome place ends => exact does_moved polls rfl rfl rfl rfl
  | dispatch =>
    cases turn with
    | done i here none_left => exact does_moved .nothing rfl rfl rfl rfl
    | quiet i here item found unset => exact does_moved .nothing rfl rfl rfl rfl
    | outOfRange i here beyond missing => exact does_moved .nothing rfl rfl rfl rfl
    | ran i here item found flagged pair held =>
      have member := List.mem_of_getElem? held
      have once : pair.2.run = [.use pair.2.object] := by
        simp [Closure.run, kinds.permanent pair member]
      have runs : Does (pair.2.run ++ []) owner.held owner.held := by
        rw [once]
        exact does_use (socket_held member (List.mem_cons_of_mem _ (List.mem_singleton_self _)))
      exact does_moved runs rfl rfl rfl rfl
  | receive =>
    cases turn with
    | receive i socket here waiting =>
      obtain ⟨pair, member, same⟩ := List.mem_map.mp (kinds.receiving i socket here)
      have reads : Does [.use (.socket socket)] owner.held owner.held := by
        apply does_use
        rw [← same]
        exact socket_held member List.mem_cons_self
      exact does_moved reads rfl rfl rfl rfl
  | finish =>
    cases turn
    exact does_moved .nothing rfl rfl rfl rfl

theorem request_steps (owns : Owns heap owner) {request : Request Unit Unit Unit}
    (fired : owner.loop.step (supply owner.nextClosure (.request request)) = some (loop, events)) :
    ∃ next, Steps Lifetimes.machine anyStep heap
      (owner.before (.request request) ++ events.flatMap eventOps) next ∧
      Owns next (owner.moved (.request request) loop) := by
  have freshClosure : Object.closure owner.nextClosure ∉ heap.known := by
    intro known
    exact Nat.lt_irrefl _ (owns.closures _ known)
  have freshSocket : Object.socket owner.loop.nextSocket ∉ heap.known := by
    intro known
    exact Nat.lt_irrefl _ (owns.sockets _ known)
  have older : ∀ id, .closure id ∈ Object.closure owner.nextClosure :: heap.known →
      id < owner.nextClosure + 1 := by
    intro id known
    rcases List.mem_cons.mp known with same | old
    · cases same
      omega
    · exact Nat.lt_succ_of_lt (owns.closures id old)
  have sockets : ∀ socket, .socket socket ∈ Object.closure owner.nextClosure :: heap.known →
      socket < owner.loop.nextSocket := by
    intro socket known
    rcases List.mem_cons.mp known with same | old
    · cases same
    · exact owns.sockets socket old
  have turn := turn_of_step fired
  cases request with
  | addSocket given =>
    cases turn with
    | request _ busy =>
      have apart : Object.closure owner.nextClosure ∉
          Object.socket owner.loop.nextSocket :: heap.known := by
        intro known
        rcases List.mem_cons.mp known with same | old
        · cases same
        · exact freshClosure old
      refine ⟨_, (new_steps freshSocket).trans (new_steps apart), ?_, ?_, ?_⟩
      · apply List.perm_iff_count.mpr
        intro object
        have before := owns.holds.count_eq object
        simp only [Owner.held, Owner.pending, List.count_append] at before
        simp only [Owner.held, Owner.pending, Owner.moved, Owner.dropped, supplied, Loop.perform,
          Reactor.addSocket, List.flatMap_append, List.flatMap_singleton, pairObjects,
          newPermanentCallback, Closure.object, List.append_nil, List.count_append, List.count_cons,
          List.count_nil, before]
        omega
      · intro socket known
        rcases List.mem_cons.mp known with same | old
        · cases same
        · rcases List.mem_cons.mp old with same | older
          · cases same
            exact Nat.lt_succ_self _
          · exact Nat.lt_succ_of_lt (owns.sockets socket older)
      · intro id known
        rcases List.mem_cons.mp known with same | old
        · cases same
          exact Nat.lt_succ_self _
        · rcases List.mem_cons.mp old with same | older
          · cases same
          · exact Nat.lt_succ_of_lt (owns.closures id older)
  | delSocket socket given =>
    cases turn with
    | request _ busy =>
      refine ⟨_, new_steps freshClosure, ?_, sockets, older⟩
      apply List.perm_iff_count.mpr
      intro object
      have before := owns.holds.count_eq object
      simp only [Owner.held, Owner.pending, List.map_append, List.count_append] at before
      simp only [Owner.held, Owner.pending, Owner.moved, Owner.dropped, supplied, Loop.perform,
        Reactor.delSocket, List.map_append, List.map_cons, List.map_nil, newCallback, Closure.object,
        List.append_nil, List.count_append, List.count_cons, List.count_nil, before]
      omega
  | runClosureAt timestamp given =>
    cases turn with
    | request _ busy =>
      refine ⟨_, new_steps freshClosure, ?_, sockets, older⟩
      have timers := ((insertClosure_timers timestamp (newCallback owner.nextClosure)
        owner.loop.reactor.closureRunMap).map Closure.object)
      apply List.perm_iff_count.mpr
      intro object
      have before := owns.holds.count_eq object
      have inserted := timers.count_eq object
      simp only [Owner.held, Owner.pending, List.map_append, List.count_append] at before
      simp only [List.map_cons, List.count_cons, newCallback, Closure.object] at inserted
      simp only [Owner.held, Owner.pending, Owner.moved, Owner.dropped, supplied, Loop.perform,
        Reactor.runClosureAt, List.map_append, newCallback, List.append_nil, List.count_append,
        List.count_cons, before, inserted]
      omega
  | setShouldQuit =>
    cases turn with
    | request _ busy =>
      refine ⟨heap, .refl, ?_, owns.sockets, fun id known => Nat.lt_succ_of_lt (owns.closures id known)⟩
      have same : (owner.moved (.request .setShouldQuit) (owner.loop.perform
          (supplied owner.nextClosure .setShouldQuit)).1).held = owner.held :=
        held_moved rfl rfl rfl rfl
      rw [same]
      exact owns.holds

theorem destroy_does : Does owner.destroy.2 owner.held owner.destroy.1.held := by
  have deleted := (does_deletes (owner.loop.reactor.sockets.flatMap pairObjects ++
    (timersIn owner.loop.reactor.closureRunMap).map Closure.object)).frame owner.destroy.1.held
  apply deleted.perm _ (.refl _)
  apply List.perm_iff_count.mpr
  intro object
  simp only [Owner.held, Owner.pending, Owner.destroy, List.flatMap_nil, timersIn, List.map_append,
    List.map_nil, List.nil_append, List.count_append]
  omega

theorem step_cases (fired : machine.step owner action = some (after, emitted)) :
    (∃ given loop events, action = .loop given ∧ owner.destroyed = false ∧
      owner.loop.step (supply owner.nextClosure given) = some (loop, events) ∧
      after = owner.moved given loop ∧
      emitted = owner.before given ++ events.flatMap eventOps) ∨
    (action = .destroy ∧ owner.destroyed = false ∧
      (owner.loop.place = .outside ∨ owner.loop.place = .returned) ∧
      after = owner.destroy.1 ∧ emitted = owner.destroy.2) := by
  change owner.step action = some (after, emitted) at fired
  cases action with
  | loop given =>
    simp only [Owner.step] at fired
    split at fired
    · cases fired
    · next exists_still =>
      obtain ⟨result, stepped, same⟩ := Option.map_eq_some_iff.mp fired
      obtain ⟨rfl, rfl⟩ := Prod.mk.inj same
      exact .inl ⟨given, result.1, result.2, rfl, by simpa using exists_still, stepped, rfl, rfl⟩
  | destroy =>
    simp only [Owner.step] at fired
    split at fired
    · next permitted =>
      obtain ⟨rfl, rfl⟩ := Prod.mk.inj (Option.some.inj fired)
      exact .inr ⟨rfl, permitted.1, permitted.2, rfl, rfl⟩
    · cases fired

theorem next_socket (turn : Turn owner.loop (supply owner.nextClosure given) loop events)
    (idle : ∀ request, given ≠ .request request) :
    loop.nextSocket = owner.loop.nextSocket := by
  cases given with
  | request request => exact absurd rfl (idle request)
  | _ => cases turn <;> rfl

theorem Owns.step (owns : Owns heap owner) (kinds : Kinds owner)
    (fired : machine.step owner action = some (after, emitted)) :
    ∃ next, Steps Lifetimes.machine anyStep heap emitted next ∧ Owns next after := by
  rcases step_cases fired with ⟨given, loop, events, -, -, stepped, rfl, rfl⟩ | ⟨-, -, -, rfl, rfl⟩
  · by_cases idle : ∀ request, given ≠ .request request
    · have same := next_socket (turn_of_step stepped) idle
      exact owns.does (turn_does kinds stepped idle) (Nat.le_of_eq same.symm) (Nat.le_succ _)
    · rw [not_forall] at idle
      obtain ⟨request, given⟩ := idle
      rw [not_not] at given
      subst given
      exact request_steps owns stepped
  · exact owns.does destroy_does (Nat.le_refl _) (Nat.le_refl _)

theorem pending_step (fired : machine.step owner action = some (after, emitted)) {closure : Closure}
    (waits : closure ∈ after.pending) :
    closure ∈ owner.pending ∨ closure = newCallback owner.nextClosure := by
  rcases step_cases fired with ⟨given, loop, events, -, -, stepped, rfl, -⟩ | ⟨-, -, -, rfl, -⟩
  · have turn := turn_of_step stepped
    have same : ∀ {loop : Loop Closure Closure Closure},
        loop.reactor.delSockets = owner.loop.reactor.delSockets →
        loop.reactor.closureRunMap = owner.loop.reactor.closureRunMap → owner.dropped given = [] →
        closure ∈ (owner.moved given loop).pending → closure ∈ owner.pending := by
      intro loop marks timers none listed
      simp only [Owner.pending, Owner.moved, marks, timers, none, List.append_nil] at listed
      exact listed
    cases given with
    | request request =>
      cases request with
      | addSocket given =>
        cases turn
        exact .inl (same rfl rfl rfl waits)
      | delSocket socket given =>
        cases turn
        simp only [Owner.pending, Owner.moved, Owner.dropped, supplied, Loop.perform, Reactor.delSocket,
          List.map_append, List.map_cons, List.map_nil, List.append_nil, List.mem_append,
          List.mem_singleton] at waits
        rcases waits with (marked | new) | other
        · exact .inl (List.mem_append_left _ marked)
        · exact .inr new
        · exact .inl (List.mem_append_right _ (List.mem_append.mpr other))
      | runClosureAt timestamp given =>
        cases turn
        simp only [Owner.pending, Owner.moved, Owner.dropped, supplied, Loop.perform, Reactor.runClosureAt,
          List.append_nil, List.mem_append, mem_insertClosure] at waits
        rcases waits with marked | (new | timer) | lost
        · exact .inl (List.mem_append_left _ marked)
        · exact .inr new
        · exact .inl (List.mem_append_right _ (List.mem_append_left _ timer))
        · exact .inl (List.mem_append_right _ (List.mem_append_right _ lost))
      | setShouldQuit =>
        cases turn
        exact .inl (same rfl rfl rfl waits)
    | loopTop =>
      cases turn with
      | quit here quits => exact .inl (same rfl rfl (by simp [Owner.dropped, quits]) waits)
      | clean here clean => exact .inl (same rfl rfl (by simp [Owner.dropped, clean]) waits)
      | overrun here dirty failed => exact .inl (same rfl rfl (dropped_overrun failed) waits)
      | rebuild here dirty reactor ran rebuilt =>
        obtain ⟨done, walked, sockets, marks, timers⟩ := rebuilt_pass rebuilt
        simp only [Owner.pending, Owner.moved, marks, timers,
          dropped_rebuild (runs_of_timers stepped rfl) dirty walked, List.map_nil, List.nil_append,
          List.mem_append] at waits
        rcases waits with timer | lost | dropped
        · exact .inl (List.mem_append_right _ (List.mem_append_left _ timer))
        · exact .inl (List.mem_append_right _ (List.mem_append_right _ lost))
        · obtain ⟨entry, listed, same⟩ := List.mem_map.mp dropped
          rw [← same]
          exact .inl (List.mem_append_left _ (List.mem_map_of_mem (pass_marks walked listed)))
    | timers now =>
      cases turn with
      | timers here now =>
        simp only [Owner.pending, Owner.moved, Owner.dropped, List.append_nil, List.mem_append] at waits
        rcases waits with marked | timer | lost
        · exact .inl (List.mem_append_left _ marked)
        · apply Or.inl
          apply List.mem_append_right
          apply List.mem_append_left
          rw [← due_append_notDue now]
          exact List.mem_append_right _ timer
        · exact .inl (List.mem_append_right _ (List.mem_append_right _ lost))
    | _ => cases turn <;> exact .inl (same rfl rfl rfl waits)
  · simp only [Owner.pending, Owner.destroy, timersIn, List.map_nil, List.flatMap_nil,
      List.nil_append, List.mem_append] at waits
    rcases waits with lost | marked
    · exact .inl (List.mem_append_right _ (List.mem_append_right _ lost))
    · exact .inl (List.mem_append_left _ marked)

theorem pair_step (fired : machine.step owner action = some (after, emitted)) {pair : Nat × Closure}
    (listed : pair ∈ after.loop.reactor.sockets) :
    pair ∈ owner.loop.reactor.sockets ∨ pair.2 = newPermanentCallback owner.nextClosure := by
  rcases step_cases fired with ⟨given, loop, events, -, -, stepped, rfl, -⟩ | ⟨-, -, -, rfl, -⟩
  · have turn := turn_of_step stepped
    cases given with
    | request request =>
      cases request with
      | addSocket given =>
        cases turn
        rcases List.mem_append.mp listed with old | new
        · exact .inl old
        · rw [List.mem_singleton.mp new]
          exact .inr rfl
      | _ =>
        cases turn
        exact .inl listed
    | loopTop =>
      cases turn with
      | rebuild here dirty reactor ran rebuilt =>
        obtain ⟨removed, whole⟩ := (rebuild_kept rebuilt).1
        exact .inl (whole.subset (List.mem_append_left _ listed))
      | _ => exact .inl listed
    | _ => cases turn <;> exact .inl listed
  · cases listed

theorem Kinds.step (kinds : Kinds owner) (fired : machine.step owner action = some (after, emitted)) :
    Kinds after := by
  constructor
  · intro pair listed
    rcases pair_step fired listed with old | new
    · exact kinds.permanent pair old
    · rw [new]
      rfl
  · intro closure waits
    rcases pending_step fired waits with old | rfl
    · exact kinds.selfDeleting closure old
    · rfl
  · rcases step_cases fired with ⟨given, loop, events, -, -, stepped, rfl, -⟩ | ⟨-, -, -, rfl, -⟩
    · exact listening_step kinds.listening (turn_of_step stepped)
    · constructor <;> simp [Owner.destroy]
  · intro i socket here
    rcases step_cases fired with ⟨given, loop, events, -, -, stepped, rfl, -⟩ | ⟨-, -, idle, rfl, -⟩
    · have turn := turn_of_step stepped
      cases given with
      | request request =>
        cases turn with
        | request _ busy =>
          have place : (owner.loop.perform (supplied owner.nextClosure request)).1.place =
              owner.loop.place := by
            cases request <;> rfl
          rw [Owner.moved, place] at here
          rw [here] at busy
          rcases busy with outside | ⟨j, running⟩
          · cases outside
          · cases running
      | arrive socket =>
        cases turn
        exact kinds.receiving i _ here
      | dispatch =>
        cases turn with
        | ran j there item found flagged pair held =>
          cases here
          exact List.mem_map_of_mem (List.mem_of_getElem? held)
        | _ => cases here
      | poll outcome =>
        cases turn with
        | ended there outcome place ends =>
          rcases ends with ⟨-, rfl⟩ | ⟨-, rfl⟩ <;> cases here
        | _ => cases here
      | _ => cases turn <;> cases here
    · rcases idle with outside | returned
      · rw [Owner.destroy, outside] at here
        cases here
      · rw [Owner.destroy, returned] at here
        cases here

theorem use_step (kinds : Kinds owner) (fired : machine.step owner action = some (after, emitted))
    {id : Nat} (used : .use (.closure id) ∈ emitted) :
    .delete (.closure id) ∈ emitted ∨
      ∃ pair ∈ owner.loop.reactor.sockets, pair.2.object = .closure id := by
  rcases step_cases fired with ⟨given, loop, events, -, -, stepped, rfl, rfl⟩ | ⟨-, -, -, rfl, rfl⟩
  · have turn := turn_of_step stepped
    rcases List.mem_append.mp used with early | late
    · cases given with
      | request request => cases request <;> simp [Owner.before] at early
      | poll outcome =>
        obtain ⟨item, -, same⟩ := List.mem_map.mp early
        cases same
      | _ => cases early
    · cases given with
      | request request =>
        cases turn with
        | request _ busy => cases request <;> simp [supplied, Loop.perform, eventOps] at late
      | loopTop =>
        cases turn with
        | rebuild here dirty reactor ran rebuilt =>
          rw [List.flatMap_map] at late
          apply Or.inl
          apply List.mem_append_right
          rw [List.flatMap_map]
          apply deeds_spent owner.loop.pass ?_ _ late
          intro entry listed
          exact kinds.selfDeleting entry.2 (List.mem_append_left _ (List.mem_map_of_mem listed))
        | _ => cases late
      | timers now =>
        cases turn with
        | timers here now =>
          rw [List.flatMap_map] at late
          apply Or.inl
          apply List.mem_append_right
          rw [List.flatMap_map]
          apply runs_spent (due now owner.loop.reactor.closureRunMap) ?_ _ late
          intro timer listed
          apply kinds.selfDeleting
          apply List.mem_append_right
          apply List.mem_append_left
          rw [← due_append_notDue now]
          exact List.mem_append_left _ listed
      | dispatch =>
        cases turn with
        | ran i here item found flagged pair held =>
          refine .inr ⟨pair, List.mem_of_getElem? held, ?_⟩
          have permanent := kinds.permanent pair (List.mem_of_getElem? held)
          simpa [eventOps, Closure.run, permanent, eq_comm] using late
        | _ => simp [eventOps] at late
      | _ => cases turn <;> simp [eventOps] at late
  · obtain ⟨object, -, same⟩ := List.mem_map.mp used
    cases same

end Step

section Run
variable {owner : Owner} {ops : List (Op Object)} {allowed : Owner → Action → Prop}

theorem owned_of_run (run : Run machine allowed ops owner) :
    ∃ heap, Run Lifetimes.machine anyStep (created ++ ops) heap ∧ Owns heap owner ∧ Kinds owner := by
  refine run.invariant (fun ops owner => ∃ heap,
    Run Lifetimes.machine anyStep (created ++ ops) heap ∧ Owns heap owner ∧ Kinds owner) ?_ ?_
  · have made : exec Lifetimes.machine Lifetimes.machine.start created =
        some (⟨[.closure 0, .socket 0], [.closure 0, .socket 0]⟩, created) := rfl
    refine ⟨_, Steps.of_exec made, ?_, ?_⟩
    · constructor
      · exact List.Perm.swap ..
      · intro socket known
        simp only [List.mem_cons, reduceCtorEq, Object.socket.injEq, List.not_mem_nil, or_false,
          false_or] at known
        rw [known]
        exact Nat.zero_lt_one
      · intro id known
        simp only [List.mem_cons, reduceCtorEq, Object.closure.injEq, List.not_mem_nil,
          or_false] at known
        rw [known]
        exact Nat.zero_lt_one
    · constructor
      · intro pair listed
        rw [List.mem_singleton.mp listed]
        rfl
      · intro closure waits
        cases waits
      · exact listening_of_run (.refl : Run (ReactorRun.machine Closure Closure
          (newPermanentCallback 0)) anyStep [] _)
      · intro i socket here
        cases here
  · intro ops owner action emitted after _ known _ fired
    obtain ⟨heap, alive, owns, kinds⟩ := known
    obtain ⟨next, steps, owned⟩ := owns.step kinds fired
    refine ⟨next, ?_, owned, kinds.step fired⟩
    rw [← List.append_assoc]
    exact alive.trans steps

theorem unused_of_run (run : Run machine allowed ops owner) :
    ∀ closure ∈ owner.pending, .use closure.object ∉ ops := by
  refine run.invariant (fun ops owner => ∀ closure ∈ owner.pending, .use closure.object ∉ ops) ?_ ?_
  · intro closure waits
    cases waits
  · intro ops owner action emitted after earlier unused permitted fired closure waits listed
    obtain ⟨heap, alive, owns, kinds⟩ := owned_of_run earlier
    obtain ⟨next, lives, owned, -⟩ := owned_of_run (earlier.next permitted fired)
    have unborn : Object.closure owner.nextClosure ∉ heap.known := by
      intro known
      exact Nat.lt_irrefl _ (owns.closures _ known)
    have live : closure.object ∈ next.live :=
      owned.holds.mem_iff.mpr (List.mem_append_right _ (List.mem_map_of_mem waits))
    rcases List.mem_append.mp listed with old | new
    · rcases pending_step fired waits with before | rfl
      · exact unused closure before old
      · exact unborn (known_of_use alive (List.mem_append_right _ old))
    · rcases use_step kinds fired new with deleted | ⟨pair, member, same⟩
      · have undeleted := (((records_of_run lives).live _).mp live).2
        exact undeleted (List.mem_append_right _ (List.mem_append_right _ deleted))
      · have inSocket : closure.object ∈ pairObjects pair := by
          rw [Closure.object, ← same]
          exact List.mem_cons_of_mem _ (List.mem_singleton_self _)
        rcases pending_step fired waits with before | rfl
        · have distinct := owns.holds.nodup_iff.mp (records_of_run alive).distinct
          have apart := (List.nodup_append.mp distinct).2.2
          exact apart _ (List.mem_flatMap.mpr ⟨pair, member, inSocket⟩) _
            (List.mem_map_of_mem before) rfl
        · have alive' := owns.holds.mem_iff.mpr (socket_held member inSocket)
          exact unborn (((records_of_run alive).known _).mpr
            (((records_of_run alive).live _).mp alive').1)

theorem held_of_destroyed (run : Run machine allowed ops owner) (destroyed : owner.destroyed = true) :
    owner.held = owner.leaked.map Closure.object := by
  refine run.invariant (fun _ owner => owner.destroyed = true →
    owner.held = owner.leaked.map Closure.object) ?_ ?_ destroyed
  · intro absurd
    cases absurd
  · intro ops owner action emitted after earlier _ permitted fired gone
    rcases step_cases fired with ⟨given, loop, events, -, present, -, rfl, -⟩ | ⟨-, -, -, rfl, -⟩
    · have same : owner.destroyed = true := gone
      rw [present] at same
      cases same
    · rfl

/-- Where deletion is requested as the broker requests it, nothing is lost before
the destructor. -/
theorem unleaked_of_run (run : Run machine Orderly ops owner) (exists_still : owner.destroyed = false) :
    (∃ events, Run (ReactorRun.machine Closure Closure (newPermanentCallback 0)) Proper events
      owner.loop) ∧ owner.leaked = [] := by
  refine run.invariant (fun _ owner => owner.destroyed = false →
    (∃ events, Run (ReactorRun.machine Closure Closure (newPermanentCallback 0)) Proper events
      owner.loop) ∧ owner.leaked = []) ?_ ?_ exists_still
  · intro _
    exact ⟨⟨[], .refl⟩, rfl⟩
  · intro ops owner action emitted after earlier known permitted fired present
    rcases step_cases fired with ⟨given, loop, events, rfl, here, stepped, rfl, -⟩ | ⟨-, -, -, rfl, -⟩
    · obtain ⟨⟨before, ran⟩, none⟩ := known here
      refine ⟨⟨before ++ events, ran.next permitted stepped⟩, ?_⟩
      have dropped : owner.dropped given = [] := by
        cases given with
        | loopTop =>
          simp only [Owner.dropped]
          split
          · have kept := kept_of_run ran
            have listening := listening_of_run ran
            obtain ⟨done, walked, removed⟩ :=
              deletion_removes owner.loop.pass listening.distinct kept.listed
            simp only [walked, removed.emptied, List.map_nil]
          · rfl
        | _ => rfl
      change owner.leaked ++ owner.dropped given = []
      rw [none, dropped, List.append_nil]
    · cases present

structure Accounted (ops : List (Op Object)) (owner : Owner) : Prop where
  /-- Nothing is used or deleted that is not there. -/
  safe : Safe (created ++ ops)
  /-- What was not deleted is what the reactor holds, or has lost. -/
  left : ∀ object, object ∈ owner.held ↔
    .new object ∈ created ++ ops ∧ .delete object ∉ created ++ ops
  distinct : owner.held.Nodup
  destroyed : owner.destroyed = true → owner.held = owner.leaked.map Closure.object
  /-- Only closures that delete themselves are lost, and they never ran. -/
  lost : ∀ closure ∈ owner.leaked, closure.selfDeleting = true ∧ .use closure.object ∉ ops

/-- In every run of the reactor its sockets and closures are used while they are
there and deleted at most once. Only closures that never ran are lost, and where
deletion is requested as the broker requests it, only by the destructor. -/
theorem objects_accounted (run : Run machine anyStep ops owner) : Accounted ops owner ∧
    (Run machine Orderly ops owner → owner.destroyed = false → owner.leaked = []) := by
  obtain ⟨heap, alive, owns, kinds⟩ := owned_of_run run
  have records := records_of_run alive
  constructor
  · constructor
    case safe => exact safe_of_run alive
    case left =>
      intro object
      rw [← owns.holds.mem_iff]
      exact records.live object
    case distinct => exact owns.holds.nodup_iff.mp records.distinct
    case destroyed => exact held_of_destroyed run
    case lost =>
      intro closure listed
      have waits : closure ∈ owner.pending :=
        List.mem_append_right _ (List.mem_append_right _ listed)
      exact ⟨kinds.selfDeleting closure waits, unused_of_run run closure waits⟩
  · intro orderly present
    exact (unleaked_of_run orderly present).2

end Run

/-- Socket 2 is deleted, then the deletion of socket 1 is requested in the round
that asks the loop to quit. -/
def quits : List Action :=
  [.request (.addSocket ()), .request (.addSocket ()), .request (.runClosureAt 5 ()),
    .request (.delSocket 2 ()), .enter, .loopTop, .timers 7, .arrive 0, .poll (.ready [true, false]),
    .dispatch, .receive, .request (.delSocket 1 ()), .request .setShouldQuit, .finish, .dispatch,
    .dispatch, .loopTop].map .loop ++ [.destroy]

theorem objects_accounted_quits : (reached machine quits).1.leaked = [newCallback 12] ∧
    .delete (.closure 12) ∉ (reached machine quits).2 ∧
    .delete (.closure 4) ∈ (reached machine quits).2 := by
  have lost : (reached machine quits).1.leaked = [newCallback 12] := by decide +kernel
  have accounted := (objects_accounted (run_reached machine quits)).1
  refine ⟨lost, ?_, by decide +kernel⟩
  have held : Object.closure 12 ∈ (reached machine quits).1.held := by
    rw [accounted.destroyed (by decide +kernel), lost]
    exact List.mem_singleton_self _
  intro deleted
  exact ((accounted.left _).mp held).2 (List.mem_append_right _ deleted)

end Rpcz.ClosureLifetimes
