import Rpcz.Automaton
import Rpcz.DeletionLoop
import Mathlib.Logic.Function.Basic

/-!
`reactor::loop` driven by any owner. An event callback receives one message from
its socket, as those of the broker do, and then asks the reactor for anything it
likes. Sockets are numbered in the order they are added; socket 0 is the first.
-/

namespace Rpcz.ReactorRun
open Automaton ReactorLoop SocketDeletion DeletionLoop

inductive Place where
  /-- In front of `loop`. -/
  | outside
  | top
  | timers
  | poll
  | dispatch (index : Nat)
  /-- In the callback of `sockets_[index]`, in the `recv` from its socket. -/
  | receiving (index socket : Nat)
  /-- In the callback, after the message was received. -/
  | running (index : Nat)
  | returned
  | faulted
deriving DecidableEq

inductive Request (Callback Deleted Timer : Type) where
  | addSocket (callback : Callback)
  | delSocket (socket : Nat) (deletion : Deleted)
  | runClosureAt (timestamp : UInt64) (timer : Timer)
  | setShouldQuit
deriving DecidableEq

/-- `requested` lists the sockets whose deletion was requested and `inbox` counts
the messages that wait at a socket. -/
structure Loop (Callback Deleted Timer : Type) where
  reactor : Reactor Callback Deleted Timer
  place : Place
  nextSocket : Nat
  requested : List Nat
  inbox : Nat → Nat

inductive Event (Callback Deleted Timer : Type) where
  | added (socket : Nat) (callback : Callback)
  | entered
  | requested (socket : Nat) (deletion : Deleted)
  | deed (deed : Deed Callback Deleted)
  | timerRun (timer : Timer)
  | polled (outcome : PollOutcome)
  /-- `sockets_[index].second->run()` for `pollitems_[index]`, with the sockets of both. -/
  | ran (index polled socket : Nat) (callback : Callback)
  | received (socket : Nat)
  /-- The dispatch loop has come to the end of `pollitems_`. -/
  | roundDone
deriving DecidableEq

inductive Action (Callback Deleted Timer : Type) where
  | arrive (socket : Nat)
  | request (request : Request Callback Deleted Timer)
  | enter
  | loopTop
  | timers (now : UInt64)
  | poll (outcome : PollOutcome)
  | dispatch
  | receive
  | finish
deriving DecidableEq

variable {Callback Deleted Timer : Type}

namespace Loop

def new (first : Callback) : Loop Callback Deleted Timer :=
  { reactor := Reactor.addSocket ⟨false, true, [], [], [], [], []⟩ 0 first
    place := .outside
    nextSocket := 1
    requested := []
    inbox := fun _ => 0 }

def perform (loop : Loop Callback Deleted Timer) :
    Request Callback Deleted Timer →
      Loop Callback Deleted Timer × List (Event Callback Deleted Timer)
  | .addSocket callback =>
    ({ loop with
        reactor := loop.reactor.addSocket loop.nextSocket callback
        nextSocket := loop.nextSocket + 1 }, [.added loop.nextSocket callback])
  | .delSocket socket deletion =>
    ({ loop with
        reactor := loop.reactor.delSocket socket deletion
        requested := loop.requested ++ [socket] }, [.requested socket deletion])
  | .runClosureAt timestamp timer =>
    ({ loop with reactor := loop.reactor.runClosureAt timestamp timer }, [])
  | .setShouldQuit => ({ loop with reactor := loop.reactor.setShouldQuit }, [])

def pass (loop : Loop Callback Deleted Timer) : DelPass Callback Deleted :=
  ⟨loop.reactor.sockets, loop.reactor.delSockets, loop.reactor.closed, []⟩

def loopTop (loop : Loop Callback Deleted Timer) :
    Loop Callback Deleted Timer × List (Event Callback Deleted Timer) :=
  if loop.reactor.shouldQuit then ({ loop with place := .returned }, [])
  else if loop.reactor.isDirty then
    match loop.reactor.rebuildPollItems with
    | none => ({ loop with place := .faulted }, [])
    | some (reactor, _) =>
      ({ loop with reactor := reactor, place := .timers }, (deeds loop.pass).map .deed)
  else ({ loop with place := .timers }, [])

/-- zmq reports `ZMQ_POLLIN` for sockets with a waiting message only. -/
def reports (loop : Loop Callback Deleted Timer) (flags : List Bool) : Bool :=
  flags.length = loop.reactor.pollItems.length ∧
    ∀ entry ∈ loop.reactor.pollItems.zip flags, entry.2 → 0 < loop.inbox entry.1.socket

/-- A failed poll leaves the `revents` of the one before. -/
def afterPoll (loop : Loop Callback Deleted Timer) :
    PollOutcome → Option (Loop Callback Deleted Timer)
  | .ready flags =>
    if loop.reports flags then
      some { loop with reactor := loop.reactor.setRevents flags, place := .dispatch 0 }
    else none
  | .error => some { loop with place := .dispatch 0 }
  | .eterm => some { loop with place := .returned }
  | .efault => some { loop with place := .faulted }

def dispatchAt (loop : Loop Callback Deleted Timer) (i : Nat) :
    Loop Callback Deleted Timer × List (Event Callback Deleted Timer) :=
  match loop.reactor.pollItems[i]? with
  | none => ({ loop with place := .top }, [.roundDone])
  | some item =>
    if item.pollin then
      match loop.reactor.sockets[i]? with
      | none => ({ loop with place := .faulted }, [])
      | some pair =>
        ({ loop with place := .receiving i pair.1 }, [.ran i item.socket pair.1 pair.2])
    else ({ loop with place := .dispatch (i + 1) }, [])

def step (loop : Loop Callback Deleted Timer) : Action Callback Deleted Timer →
    Option (Loop Callback Deleted Timer × List (Event Callback Deleted Timer))
  | .arrive socket =>
    some ({ loop with
      inbox := Function.update loop.inbox socket (loop.inbox socket + 1) }, [])
  | .request request =>
    match loop.place with
    | .outside => some (loop.perform request)
    | .running _ => some (loop.perform request)
    | _ => none
  | .enter => if loop.place = .outside then some ({ loop with place := .top }, [.entered]) else none
  | .loopTop => if loop.place = .top then some loop.loopTop else none
  | .timers now =>
    if loop.place = .timers then
      let processed := loop.reactor.processClosureRunMap now
      some ({ loop with reactor := processed.1, place := .poll }, processed.2.map .timerRun)
    else none
  | .poll outcome =>
    if loop.place = .poll then
      (loop.afterPoll outcome).map (fun after => (after, [.polled outcome]))
    else none
  | .dispatch =>
    match loop.place with
    | .dispatch i => some (loop.dispatchAt i)
    | _ => none
  | .receive =>
    match loop.place with
    | .receiving i socket =>
      if 0 < loop.inbox socket then
        some ({ loop with
            inbox := Function.update loop.inbox socket (loop.inbox socket - 1)
            place := .running i }, [.received socket])
      else none
    | _ => none
  | .finish =>
    match loop.place with
    | .running i => some ({ loop with place := .dispatch (i + 1) }, [])
    | _ => none

end Loop

/-- The reactor whose first socket has the callback `first`. -/
def machine (Deleted Timer : Type) (first : Callback) :
    Machine (Loop Callback Deleted Timer) (Action Callback Deleted Timer)
      (Event Callback Deleted Timer) :=
  ⟨Loop.new first, Loop.step⟩

/-- The callback that runs waits in `recv` at a socket without a message. -/
def Loop.Blocked (loop : Loop Callback Deleted Timer) : Prop :=
  ∃ index socket, loop.place = .receiving index socket ∧ loop.inbox socket = 0

/-- Deletion is requested of an added socket other than the first, once. -/
def Proper (loop : Loop Callback Deleted Timer) : Action Callback Deleted Timer → Prop
  | .request (.delSocket socket _) =>
    0 < socket ∧ socket < loop.nextSocket ∧ socket ∉ loop.requested
  | _ => True

inductive Turn (loop : Loop Callback Deleted Timer) : Action Callback Deleted Timer →
    Loop Callback Deleted Timer → List (Event Callback Deleted Timer) → Prop where
  | arrive (socket : Nat) : Turn loop (.arrive socket)
      { loop with inbox := Function.update loop.inbox socket (loop.inbox socket + 1) } []
  | request (request : Request Callback Deleted Timer)
      (busy : loop.place = .outside ∨ ∃ i, loop.place = .running i) :
      Turn loop (.request request) (loop.perform request).1 (loop.perform request).2
  | enter (here : loop.place = .outside) : Turn loop .enter { loop with place := .top } [.entered]
  | quit (here : loop.place = .top) (quits : loop.reactor.shouldQuit) :
      Turn loop .loopTop { loop with place := .returned } []
  | rebuild (here : loop.place = .top) (dirty : loop.reactor.isDirty)
      (reactor : Reactor Callback Deleted Timer) (ran : List Deleted)
      (rebuilt : loop.reactor.rebuildPollItems = some (reactor, ran)) :
      Turn loop .loopTop { loop with reactor := reactor, place := .timers }
        ((deeds loop.pass).map .deed)
  | overrun (here : loop.place = .top) (dirty : loop.reactor.isDirty)
      (failed : loop.reactor.rebuildPollItems = none) :
      Turn loop .loopTop { loop with place := .faulted } []
  | clean (here : loop.place = .top) (clean : loop.reactor.isDirty = false) :
      Turn loop .loopTop { loop with place := .timers } []
  | timers (here : loop.place = .timers) (now : UInt64) :
      Turn loop (.timers now)
        { loop with
          reactor := { loop.reactor with closureRunMap := notDue now loop.reactor.closureRunMap }
          place := .poll }
        ((due now loop.reactor.closureRunMap).map .timerRun)
  | ready (here : loop.place = .poll) (flags : List Bool) (reported : loop.reports flags) :
      Turn loop (.poll (.ready flags))
        { loop with reactor := loop.reactor.setRevents flags, place := .dispatch 0 }
        [.polled (.ready flags)]
  | error (here : loop.place = .poll) :
      Turn loop (.poll .error) { loop with place := .dispatch 0 } [.polled .error]
  | ended (here : loop.place = .poll) (outcome : PollOutcome) (place : Place)
      (ends : (outcome = .eterm ∧ place = .returned) ∨ (outcome = .efault ∧ place = .faulted)) :
      Turn loop (.poll outcome) { loop with place := place } [.polled outcome]
  | done (i : Nat) (here : loop.place = .dispatch i) (none_left : loop.reactor.pollItems[i]? = none) :
      Turn loop .dispatch { loop with place := .top } [.roundDone]
  | quiet (i : Nat) (here : loop.place = .dispatch i) (item : PollItem)
      (found : loop.reactor.pollItems[i]? = some item) (unset : item.pollin = false) :
      Turn loop .dispatch { loop with place := .dispatch (i + 1) } []
  | outOfRange (i : Nat) (here : loop.place = .dispatch i)
      (beyond : loop.reactor.pollItems[i]? ≠ none) (missing : loop.reactor.sockets[i]? = none) :
      Turn loop .dispatch { loop with place := .faulted } []
  | ran (i : Nat) (here : loop.place = .dispatch i) (item : PollItem)
      (found : loop.reactor.pollItems[i]? = some item) (flagged : item.pollin) (pair : Nat × Callback)
      (held : loop.reactor.sockets[i]? = some pair) :
      Turn loop .dispatch { loop with place := .receiving i pair.1 }
        [.ran i item.socket pair.1 pair.2]
  | receive (i socket : Nat) (here : loop.place = .receiving i socket) (waiting : 0 < loop.inbox socket) :
      Turn loop .receive
        { loop with
          inbox := Function.update loop.inbox socket (loop.inbox socket - 1)
          place := .running i } [.received socket]
  | finish (i : Nat) (here : loop.place = .running i) :
      Turn loop .finish { loop with place := .dispatch (i + 1) } []

theorem step_turn {first : Callback} {loop after : Loop Callback Deleted Timer}
    {action : Action Callback Deleted Timer} {emitted : List (Event Callback Deleted Timer)}
    (fired : (machine Deleted Timer first).step loop action = some (after, emitted)) :
    Turn loop action after emitted := by
  change loop.step action = some (after, emitted) at fired
  cases action with
  | arrive socket =>
    obtain ⟨rfl, rfl⟩ := Prod.mk.inj (Option.some.inj fired)
    exact .arrive socket
  | request request =>
    simp only [Loop.step] at fired
    split at fired
    · next here =>
      obtain ⟨rfl, rfl⟩ := Prod.mk.inj (Option.some.inj fired)
      exact .request request (.inl here)
    · next i here =>
      obtain ⟨rfl, rfl⟩ := Prod.mk.inj (Option.some.inj fired)
      exact .request request (.inr ⟨i, here⟩)
    · cases fired
  | enter =>
    simp only [Loop.step] at fired
    split at fired
    · next here =>
      obtain ⟨rfl, rfl⟩ := Prod.mk.inj (Option.some.inj fired)
      exact .enter here
    · cases fired
  | loopTop =>
    simp only [Loop.step, Loop.loopTop] at fired
    split at fired
    · next here =>
      split at fired
      · next quits =>
        obtain ⟨rfl, rfl⟩ := Prod.mk.inj (Option.some.inj fired)
        exact .quit here quits
      · split at fired
        · next dirty =>
          split at fired
          · next failed =>
            obtain ⟨rfl, rfl⟩ := Prod.mk.inj (Option.some.inj fired)
            exact .overrun here dirty failed
          · next reactor ran rebuilt =>
            obtain ⟨rfl, rfl⟩ := Prod.mk.inj (Option.some.inj fired)
            exact .rebuild here dirty reactor ran rebuilt
        · next clean =>
          obtain ⟨rfl, rfl⟩ := Prod.mk.inj (Option.some.inj fired)
          exact .clean here (by simpa using clean)
    · cases fired
  | timers now =>
    simp only [Loop.step] at fired
    split at fired
    · next here =>
      obtain ⟨rfl, rfl⟩ := Prod.mk.inj (Option.some.inj fired)
      exact .timers here now
    · cases fired
  | poll outcome =>
    simp only [Loop.step] at fired
    split at fired
    · next here =>
      cases outcome with
      | ready flags =>
        simp only [Loop.afterPoll] at fired
        split at fired
        · next reported =>
          obtain ⟨rfl, rfl⟩ := Prod.mk.inj (Option.some.inj fired)
          exact .ready here flags reported
        · cases fired
      | error =>
        obtain ⟨rfl, rfl⟩ := Prod.mk.inj (Option.some.inj fired)
        exact .error here
      | eterm =>
        obtain ⟨rfl, rfl⟩ := Prod.mk.inj (Option.some.inj fired)
        exact .ended here .eterm .returned (.inl ⟨rfl, rfl⟩)
      | efault =>
        obtain ⟨rfl, rfl⟩ := Prod.mk.inj (Option.some.inj fired)
        exact .ended here .efault .faulted (.inr ⟨rfl, rfl⟩)
    · cases fired
  | dispatch =>
    simp only [Loop.step] at fired
    split at fired
    · next i here =>
      simp only [Loop.dispatchAt] at fired
      split at fired
      · next none_left =>
        obtain ⟨rfl, rfl⟩ := Prod.mk.inj (Option.some.inj fired)
        exact .done i here none_left
      · next item found =>
        split at fired
        · next flagged =>
          split at fired
          · next missing =>
            obtain ⟨rfl, rfl⟩ := Prod.mk.inj (Option.some.inj fired)
            exact .outOfRange i here (by simp [found]) missing
          · next pair held =>
            obtain ⟨rfl, rfl⟩ := Prod.mk.inj (Option.some.inj fired)
            exact .ran i here item found flagged pair held
        · next unset =>
          obtain ⟨rfl, rfl⟩ := Prod.mk.inj (Option.some.inj fired)
          exact .quiet i here item found (by simpa using unset)
    · cases fired
  | receive =>
    simp only [Loop.step] at fired
    split at fired
    · next i socket here =>
      split at fired
      · next waiting =>
        obtain ⟨rfl, rfl⟩ := Prod.mk.inj (Option.some.inj fired)
        exact .receive i socket here waiting
      · cases fired
    · cases fired
  | finish =>
    simp only [Loop.step] at fired
    split at fired
    · next i here =>
      obtain ⟨rfl, rfl⟩ := Prod.mk.inj (Option.some.inj fired)
      exact .finish i here
    · cases fired

/-! Any walk of `process_del_sockets` leaves distinct sockets of those there were. -/

theorem processDelFrom_kept {i : Nat} {pass done : DelPass Callback Deleted}
    (walked : processDelFrom i pass = some done) :
    ∃ removed, (done.sockets ++ removed).Perm pass.sockets := by
  induction i generalizing pass with
  | zero =>
    obtain rfl := Option.some.inj walked
    exact ⟨[], by simp⟩
  | succ i ih =>
    rw [processDelFrom] at walked
    split at walked
    · next pair last here final =>
      have filled := fill_perm here final
      split at walked
      · exact ih walked
      · split at walked
        · obtain rfl := Option.some.inj walked
          exact ⟨[pair], filled⟩
        · obtain ⟨removed, whole⟩ := ih walked
          refine ⟨removed ++ [pair], ?_⟩
          rw [← List.append_assoc]
          exact (whole.append_right [pair]).trans filled
    · cases walked

theorem rebuild_kept {reactor rebuilt : Reactor Callback Deleted Timer} {ran : List Deleted}
    (done : reactor.rebuildPollItems = some (rebuilt, ran)) :
    (∃ removed, (rebuilt.sockets ++ removed).Perm reactor.sockets) ∧
      rebuilt.pollItems = rebuilt.sockets.map (fun pair => ⟨pair.1, false⟩) := by
  rw [Reactor.rebuildPollItems] at done
  split at done
  · cases done
  · next pass walked =>
    obtain ⟨rfl, -⟩ := Prod.mk.inj (Option.some.inj done)
    refine ⟨?_, rfl⟩
    rw [processDelSockets] at walked
    split at walked
    · obtain rfl := Option.some.inj walked
      exact ⟨[], by simp⟩
    · split at walked
      · obtain rfl := Option.some.inj walked
        exact ⟨[], by simp⟩
      · exact processDelFrom_kept walked

/-- The sockets are distinct, and `pollitems_` was built from the first of them. -/
structure Listening (loop : Loop Callback Deleted Timer) : Prop where
  distinct : (loop.reactor.sockets.map Prod.fst).Nodup
  bound : ∀ pair ∈ loop.reactor.sockets, pair.1 < loop.nextSocket
  built : loop.reactor.pollItems.map PollItem.socket <+: loop.reactor.sockets.map Prod.fst

section Listen
variable {first : Callback} {events emitted : List (Event Callback Deleted Timer)}
  {loop after : Loop Callback Deleted Timer} {allowed : Loop Callback Deleted Timer →
    Action Callback Deleted Timer → Prop} {action : Action Callback Deleted Timer}

theorem setRevents_sockets (reactor : Reactor Callback Deleted Timer) (flags : List Bool) :
    (reactor.setRevents flags).pollItems.map PollItem.socket =
      reactor.pollItems.map PollItem.socket := by
  refine List.ext_getElem? (fun j => ?_)
  simp only [Reactor.setRevents, List.getElem?_map, List.getElem?_mapIdx, Option.map_map]
  rfl

theorem listening_step (listening : Listening loop) (turn : Turn loop action after emitted) :
    Listening after := by
  cases turn with
  | request request busy =>
    cases request with
    | addSocket callback =>
      constructor
      · simp only [Loop.perform, Reactor.addSocket, List.map_append, List.map_cons, List.map_nil]
        refine List.nodup_append.mpr ⟨listening.distinct, List.nodup_singleton _, ?_⟩
        intro socket member other single
        obtain rfl := List.mem_singleton.mp single
        obtain ⟨pair, inside, rfl⟩ := List.mem_map.mp member
        exact Nat.ne_of_lt (listening.bound pair inside)
      · intro pair member
        rcases List.mem_append.mp member with old | new
        · exact Nat.lt_succ_of_lt (listening.bound pair old)
        · obtain rfl := List.mem_singleton.mp new
          exact Nat.lt_succ_self _
      · simp only [Loop.perform, Reactor.addSocket, List.map_append]
        exact listening.built.trans (List.prefix_append ..)
    | _ => exact ⟨listening.distinct, listening.bound, listening.built⟩
  | rebuild here dirty reactor ran rebuilt =>
    obtain ⟨⟨removed, whole⟩, items⟩ := rebuild_kept rebuilt
    constructor
    · have separate := (whole.map Prod.fst).nodup_iff.mpr listening.distinct
      rw [List.map_append] at separate
      exact separate.of_append_left
    · exact fun pair member => listening.bound pair (whole.subset (List.mem_append_left _ member))
    · simp only [items, List.map_map]
      exact List.prefix_refl _
  | ready here flags reported =>
    refine ⟨listening.distinct, listening.bound, ?_⟩
    simp only [setRevents_sockets]
    exact listening.built
  | _ => exact ⟨listening.distinct, listening.bound, listening.built⟩

theorem listening_of_run (run : Run (machine Deleted Timer first) allowed events loop) :
    Listening loop := by
  refine Steps.invariant (fun _ loop => Listening loop) ?_ ?_ run
  · constructor <;> simp [machine, Loop.new, Reactor.addSocket]
  · intro events loop action emitted after _ listening _ fired
    exact listening_step listening (step_turn fired)

theorem Listening.matched (listening : Listening loop) {i : Nat} {item : PollItem}
    {pair : Nat × Callback} (found : loop.reactor.pollItems[i]? = some item)
    (held : loop.reactor.sockets[i]? = some pair) : item.socket = pair.1 := by
  obtain ⟨rest, shape⟩ := listening.built
  have same : (loop.reactor.sockets.map Prod.fst)[i]? = some item.socket := by
    rw [← shape, List.getElem?_append_left]
    · simp [found]
    · simpa using (List.getElem?_eq_some_iff.mp found).1
  simp only [List.getElem?_map, held, Option.map_some, Option.some.injEq] at same
  exact same.symm

theorem Listening.apart (listening : Listening loop) {i j : Nat} {first second : PollItem}
    (here : loop.reactor.pollItems[i]? = some first)
    (there : loop.reactor.pollItems[j]? = some second) (different : i ≠ j) :
    first.socket ≠ second.socket := by
  have distinct : (loop.reactor.pollItems.map PollItem.socket).Nodup :=
    listening.distinct.sublist listening.built.sublist
  have bound := (List.getElem?_eq_some_iff.mp here).1
  intro same
  refine different ((List.getElem?_inj (by simpa using bound) distinct).mp ?_)
  simp [here, there, same]

end Listen

end Rpcz.ReactorRun
