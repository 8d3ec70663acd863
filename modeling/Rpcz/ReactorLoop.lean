import Mathlib.Data.List.Basic
import Mathlib.Tactic.Tauto

/-!
reactor.cc. The callbacks are values the owner of the reactor interprets, so
the reactor is generic in them. A socket is named by a number that is never
used again; the reactor also remembers which sockets it has deleted.
-/

namespace Rpcz.ReactorLoop

/-- `revents` is read only for `ZMQ_POLLIN`. -/
structure PollItem where
  socket : Nat
  pollin : Bool
deriving DecidableEq, Repr

/-- How one call of `zmq_poll` ends. -/
inductive PollOutcome where
  | ready (flags : List Bool)
  | eterm
  | efault
  | error
deriving DecidableEq, Repr

/-- `del_sockets_` is a multimap: a socket may have several callbacks, run in
the order of their insertion. `closed` lists the deleted pairs. -/
structure Reactor (Callback Deleted Timer : Type) where
  shouldQuit : Bool
  isDirty : Bool
  sockets : List (Nat × Callback)
  delSockets : List (Nat × Deleted)
  pollItems : List PollItem
  closureRunMap : List (UInt64 × List Timer)
  closed : List (Nat × Callback)

variable {Callback Deleted Timer : Type}

def Reactor.addSocket (reactor : Reactor Callback Deleted Timer) (socket : Nat)
    (callback : Callback) : Reactor Callback Deleted Timer :=
  { reactor with sockets := reactor.sockets ++ [(socket, callback)], isDirty := true }

def Reactor.delSocket (reactor : Reactor Callback Deleted Timer) (socket : Nat)
    (callback : Deleted) : Reactor Callback Deleted Timer :=
  { reactor with delSockets := reactor.delSockets ++ [(socket, callback)], isDirty := true }

def Reactor.setShouldQuit (reactor : Reactor Callback Deleted Timer) :
    Reactor Callback Deleted Timer :=
  { reactor with shouldQuit := true }

/-- What `process_del_sockets` works on; `ran` lists the deletion callbacks it ran. -/
structure DelPass (Callback Deleted : Type) where
  sockets : List (Nat × Callback)
  delSockets : List (Nat × Deleted)
  closed : List (Nat × Callback)
  ran : List Deleted

/-- Deletes the pair at `i`, fills the hole with the last pair and runs the
callbacks of the socket. -/
def DelPass.remove (pass : DelPass Callback Deleted) (i : Nat) (pair last : Nat × Callback) :
    DelPass Callback Deleted :=
  { sockets := (pass.sockets.set i last).dropLast
    delSockets := pass.delSockets.filter (fun entry => entry.1 ≠ pair.1)
    closed := pass.closed ++ [pair]
    ran := pass.ran ++ (pass.delSockets.filter (fun entry => entry.1 = pair.1)).map Prod.snd }

/-- The loop of `process_del_sockets` from index `i` down to 1. `none` is a
read outside the vector. -/
def processDelFrom : Nat → DelPass Callback Deleted → Option (DelPass Callback Deleted)
  | 0, pass => some pass
  | i + 1, pass =>
    match pass.sockets[i + 1]?, pass.sockets.getLast? with
    | some pair, some last =>
      if pass.delSockets.filter (fun entry => entry.1 = pair.1) = [] then
        processDelFrom i pass
      else if (pass.remove (i + 1) pair last).delSockets = [] then
        some (pass.remove (i + 1) pair last)
      else processDelFrom i (pass.remove (i + 1) pair last)
    | _, _ => none

def processDelSockets (pass : DelPass Callback Deleted) : Option (DelPass Callback Deleted) :=
  if pass.delSockets = [] then some pass
  else if pass.sockets = [] then some pass
  else processDelFrom (pass.sockets.length - 1) pass

/-- `rebuild_poll_items`, with the deletion callbacks it ran. -/
def Reactor.rebuildPollItems (reactor : Reactor Callback Deleted Timer) :
    Option (Reactor Callback Deleted Timer × List Deleted) :=
  match processDelSockets ⟨reactor.sockets, reactor.delSockets, reactor.closed, []⟩ with
  | none => none
  | some pass =>
    some ({ reactor with
      sockets := pass.sockets
      delSockets := []
      closed := pass.closed
      pollItems := pass.sockets.map (fun pair => ⟨pair.1, false⟩)
      isDirty := false }, pass.ran)

/-- `closure_run_map_[timestamp].push_back(closure)` on a map sorted by its keys. -/
def insertClosure (timestamp : UInt64) (closure : Timer) :
    List (UInt64 × List Timer) → List (UInt64 × List Timer)
  | [] => [(timestamp, [closure])]
  | (key, closures) :: rest =>
    if timestamp < key then (timestamp, [closure]) :: (key, closures) :: rest
    else if timestamp = key then (key, closures ++ [closure]) :: rest
    else (key, closures) :: insertClosure timestamp closure rest

def Reactor.runClosureAt (reactor : Reactor Callback Deleted Timer) (timestamp : UInt64)
    (closure : Timer) : Reactor Callback Deleted Timer :=
  { reactor with closureRunMap := insertClosure timestamp closure reactor.closureRunMap }

/-- The closures in front of `upper_bound(now)`, in the order they run. -/
def due (now : UInt64) (closures : List (UInt64 × List Timer)) : List Timer :=
  (closures.takeWhile (fun entry => entry.1 ≤ now)).flatMap Prod.snd

/-- The entries from `upper_bound(now)` on. -/
def notDue (now : UInt64) (closures : List (UInt64 × List Timer)) : List (UInt64 × List Timer) :=
  closures.dropWhile (fun entry => entry.1 ≤ now)

/-- The value `process_closure_run_map` returns: the difference is taken in
`uint64` and narrowed to `long`. -/
def pollTimeout (now : UInt64) (closures : List (UInt64 × List Timer)) : Int64 :=
  match notDue now closures with
  | [] => -1
  | entry :: _ => (entry.1 - now).toInt64

/-- `process_closure_run_map`, with the closures it ran. -/
def Reactor.processClosureRunMap (reactor : Reactor Callback Deleted Timer) (now : UInt64) :
    Reactor Callback Deleted Timer × List Timer :=
  ({ reactor with closureRunMap := notDue now reactor.closureRunMap },
    due now reactor.closureRunMap)

/-- A successful poll sets every `revents`; a failed one leaves them. -/
def Reactor.setRevents (reactor : Reactor Callback Deleted Timer) (flags : List Bool) :
    Reactor Callback Deleted Timer :=
  { reactor with
    pollItems := reactor.pollItems.mapIdx (fun i item => { item with pollin := flags.getD i false }) }

/-- What the dispatch loop finds at index `i`. -/
inductive Slot (Callback : Type) where
  | finished
  | quiet
  | ready (callback : Callback)
  | outOfRange
deriving DecidableEq

/-- The loop runs over `pollitems_` and calls `sockets_[i].second`. -/
def Reactor.slot (reactor : Reactor Callback Deleted Timer) (i : Nat) : Slot Callback :=
  match reactor.pollItems[i]? with
  | none => .finished
  | some item =>
    if item.pollin then
      match reactor.sockets[i]? with
      | none => .outOfRange
      | some pair => .ready pair.2
    else .quiet

/-! A timer leaves the map only when it runs. -/

def timersIn (closures : List (UInt64 × List Timer)) : List Timer :=
  closures.flatMap Prod.snd

theorem mem_insertClosure {timestamp : UInt64} {closure timer : Timer}
    {closures : List (UInt64 × List Timer)} :
    timer ∈ timersIn (insertClosure timestamp closure closures) ↔
      timer = closure ∨ timer ∈ timersIn closures := by
  induction closures with
  | nil => simp [insertClosure, timersIn]
  | cons entry rest ih =>
    obtain ⟨key, held⟩ := entry
    simp only [insertClosure]
    split
    · simp [timersIn]
    · split
      · simp only [timersIn, List.flatMap_cons, List.mem_append, List.mem_singleton]
        tauto
      · simp only [timersIn, List.flatMap_cons, List.mem_append] at ih ⊢
        rw [ih]
        tauto

theorem due_append_notDue (now : UInt64) (closures : List (UInt64 × List Timer)) :
    due now closures ++ timersIn (notDue now closures) = timersIn closures := by
  simp only [due, notDue, timersIn, ← List.flatMap_append, List.takeWhile_append_dropWhile]

end Rpcz.ReactorLoop
