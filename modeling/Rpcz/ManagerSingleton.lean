import Rpcz.Automaton
import Mathlib.Logic.Function.Basic

/-!
manager_dyn_singleton_helper.hpp and .cc: the one manager object of a process,
handed out by `manager::get` and destroyed with its last `manager_ptr`. Any
number of threads get, copy and release pointers. Every access to a mutex, to
`mgr_exists` or to a pointer is a step of its own.
-/

namespace Rpcz.ManagerSingleton
open Automaton

/-- The objects `new manager()` has made are numbered. -/
abbrev ManagerId := Nat

inductive Place where
  | outside
  /-- `get_manager_ptr`, in front of the unlocked `mgr_wptr.lock()`. -/
  | probing
  /-- `make_manager_ptr`, in front of the lock of `mgr_wptr_mtx`. -/
  | entering
  /-- Holds `mgr_wptr_mtx`, in front of the second `mgr_wptr.lock()`. -/
  | relocking
  /-- In front of the lock of `mgr_exists_mtx`, also after a wait. -/
  | starting
  /-- Holds `mgr_exists_mtx`, in front of `while (mgr_exists)`. -/
  | testing
  /-- In `cond.wait`, which has released `mgr_exists_mtx`. -/
  | waiting
  /-- Has left the loop, in front of `mgr_exists = true`. -/
  | claiming
  /-- `start_construction` has returned. -/
  | allocating
  | constructing (manager : ManagerId)
  /-- `p` owns the new manager, in front of `mgr_wptr = p`. -/
  | publishing (manager : ManagerId)
  /-- In front of `return p`. The slow path still holds `mgr_wptr_mtx`. -/
  | returning (manager : ManagerId) (slow : Bool)
  /-- In `delete p` of the deleter. -/
  | destroying (manager : ManagerId)
  /-- `finish_destruction`, in front of the lock of `mgr_exists_mtx`. -/
  | finishing
  /-- Holds `mgr_exists_mtx`, in front of `mgr_exists = false`. -/
  | clearing
deriving DecidableEq

inductive Life where
  | unborn
  | constructing
  | alive
  | destroying
  | destroyed
deriving DecidableEq

/-- `pointers` lists every `manager_ptr` there is with the thread that owns it,
local variables of the helper included. -/
structure DynSingleton (Thread : Type) where
  places : Thread → Place
  pointers : List (Thread × ManagerId)
  mgrWptr : Option ManagerId
  mgrWptrMtx : Option Thread
  mgrExists : Bool
  mgrExistsMtx : Option Thread
  life : ManagerId → Life
  nextManager : ManagerId

inductive Event (Thread : Type) where
  /-- `start_construction` returns. -/
  | startedConstruction (thread : Thread)
  | constructing (manager : ManagerId)
  | constructed (manager : ManagerId)
  /-- `manager::get` returns. -/
  | got (thread : Thread) (manager : ManagerId)
  | released (thread : Thread) (manager : ManagerId)
  | destroying (manager : ManagerId)
  | destroyed (manager : ManagerId)
  | finishedDestruction (thread : Thread)
deriving DecidableEq

inductive Action (Thread : Type) where
  /-- Calls `manager::get`. -/
  | get (thread : Thread)
  /-- `receiver` copies a pointer of `owner`, which may be inside an object both reach. -/
  | copy (owner receiver : Thread) (manager : ManagerId)
  | release (thread : Thread) (manager : ManagerId)
  /-- The thread takes its next step inside the helper. -/
  | advance (thread : Thread)
deriving DecidableEq

namespace DynSingleton
variable {Thread : Type} [DecidableEq Thread]

def new : DynSingleton Thread :=
  { places := fun _ => .outside
    pointers := []
    mgrWptr := none
    mgrWptrMtx := none
    mgrExists := false
    mgrExistsMtx := none
    life := fun _ => .unborn
    nextManager := 0 }

def useCount (singleton : DynSingleton Thread) (manager : ManagerId) : Nat :=
  singleton.pointers.countP (fun pointer => pointer.2 = manager)

/-- `weak_ptr::lock`, and `weak_ptr::expired` where it fails. -/
def lock (singleton : DynSingleton Thread) : Option ManagerId :=
  singleton.mgrWptr.filter (fun manager => 0 < singleton.useCount manager)

def goTo (singleton : DynSingleton Thread) (thread : Thread) (place : Place) :
    DynSingleton Thread :=
  { singleton with places := Function.update singleton.places thread place }

def own (singleton : DynSingleton Thread) (thread : Thread) (manager : ManagerId) :
    DynSingleton Thread :=
  { singleton with pointers := (thread, manager) :: singleton.pointers }

def setLife (singleton : DynSingleton Thread) (manager : ManagerId) (life : Life) :
    DynSingleton Thread :=
  { singleton with life := Function.update singleton.life manager life }

/-- The thread calls `dyn_singleton_deleter` if it released the last pointer. -/
def release (singleton : DynSingleton Thread) (thread : Thread) (manager : ManagerId) :
    DynSingleton Thread × List (Event Thread) :=
  let rest := { singleton with pointers := singleton.pointers.erase (thread, manager) }
  if rest.useCount manager = 0 then
    ((rest.setLife manager .destroying).goTo thread (.destroying manager),
      [.released thread manager, .destroying manager])
  else (rest, [.released thread manager])

/-- The statements of `get_manager_ptr`, `make_manager_ptr`, `start_construction`,
`dyn_singleton_deleter` and `finish_destruction`, one at a time. A wait may end
at any time, so `notify_one` leaves nothing behind. -/
def advance (singleton : DynSingleton Thread) (thread : Thread) :
    Place → Option (DynSingleton Thread × List (Event Thread))
  | .outside => none
  | .probing =>
    match singleton.lock with
    | some manager => some ((singleton.own thread manager).goTo thread (.returning manager false), [])
    | none => some (singleton.goTo thread .entering, [])
  | .entering =>
    if singleton.mgrWptrMtx = none then
      some ({ singleton with mgrWptrMtx := some thread }.goTo thread .relocking, [])
    else none
  | .relocking =>
    match singleton.lock with
    | some manager => some ((singleton.own thread manager).goTo thread (.returning manager true), [])
    | none => some (singleton.goTo thread .starting, [])
  | .starting =>
    if singleton.mgrExistsMtx = none then
      some ({ singleton with mgrExistsMtx := some thread }.goTo thread .testing, [])
    else none
  | .testing =>
    if singleton.mgrExists then
      some ({ singleton with mgrExistsMtx := none }.goTo thread .waiting, [])
    else some (singleton.goTo thread .claiming, [])
  | .waiting => some (singleton.goTo thread .starting, [])
  | .claiming =>
    some ({ singleton with mgrExists := true, mgrExistsMtx := none }.goTo thread .allocating,
      [.startedConstruction thread])
  | .allocating =>
    let manager := singleton.nextManager
    some (({ singleton with nextManager := manager + 1 }.setLife manager .constructing).goTo thread
      (.constructing manager), [.constructing manager])
  | .constructing manager =>
    some (((singleton.setLife manager .alive).own thread manager).goTo thread (.publishing manager),
      [.constructed manager])
  | .publishing manager =>
    some ({ singleton with mgrWptr := some manager }.goTo thread (.returning manager true), [])
  | .returning manager slow =>
    some ({ singleton with
        mgrWptrMtx := if slow then none else singleton.mgrWptrMtx }.goTo thread .outside,
      [.got thread manager])
  | .destroying manager =>
    some ((singleton.setLife manager .destroyed).goTo thread .finishing, [.destroyed manager])
  | .finishing =>
    if singleton.mgrExistsMtx = none then
      some ({ singleton with mgrExistsMtx := some thread }.goTo thread .clearing, [])
    else none
  | .clearing =>
    some ({ singleton with mgrExists := false, mgrExistsMtx := none }.goTo thread .outside,
      [.finishedDestruction thread])

def step (singleton : DynSingleton Thread) :
    Action Thread → Option (DynSingleton Thread × List (Event Thread))
  | .get thread =>
    if singleton.places thread = .outside then some (singleton.goTo thread .probing, []) else none
  | .copy owner receiver manager =>
    if (owner, manager) ∈ singleton.pointers then some (singleton.own receiver manager, []) else none
  | .release thread manager =>
    if singleton.places thread = .outside ∧ (thread, manager) ∈ singleton.pointers then
      some (singleton.release thread manager)
    else none
  | .advance thread => singleton.advance thread (singleton.places thread)

end DynSingleton

def machine (Thread : Type) [DecidableEq Thread] :
    Machine (DynSingleton Thread) (Action Thread) (Event Thread) :=
  ⟨DynSingleton.new, DynSingleton.step⟩

end Rpcz.ManagerSingleton
