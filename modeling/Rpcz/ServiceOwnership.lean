import Rpcz.HandlerCache
import Mathlib.Data.List.Nodup
import Mathlib.Data.List.Perm.Basic

/-!
request_handler.cc owns its services by raw pointers. One handler from its
constructor to its destructor, on the thread of its worker: a registration that a
service makes while it is dispatched goes through the broker and comes back as a
later command of the worker. `delete` and the run of a destructor are told apart:
`iservice` has no virtual destructor.
-/

namespace Rpcz.ServiceOwnership
open Automaton Message EventLog RequestHandlers HandlerCache

inductive Stage where
  | unborn
  /-- In `create_services`, with the factories that remain. -/
  | creating (rest : Factories)
  | ready
  /-- In `dispatch_request` of a service. -/
  | dispatching (svc : Service)
  /-- In the destructor, with the names of `map_copy` that remain. -/
  | destroying (rest : List Bytes)
  | destroyed
deriving DecidableEq

/-- `posted` are the `kRegisterSvc` commands for the connection that no worker has
executed. `fresh` is the address of the next service. -/
structure Owner where
  stage : Stage
  handler : RequestHandler
  posted : List (Bytes × ServiceObject)
  fresh : Nat

inductive Event where
  | posted (name : Bytes) (svc : Service)
  | handed (name : Bytes) (svc : Service)
  /-- A `delete` expression gives the service's memory back. -/
  | deleted (svc : Service)
  /-- The destructor of the service's own class has run. -/
  | destructed (svc : Service)
  | dispatched (name : Bytes) (svc : Service)
  | returned (svc : Service)
  | destroying
  | destroyed
deriving DecidableEq

inductive Action where
  /-- The constructor, with the factories of the connection's router. -/
  | construct (found : Option Factories)
  | createNext
  /-- `connection::register_service` with a new service, on any thread. -/
  | post (name : Bytes) (cls : Nat)
  /-- The worker executes one of the posted commands. -/
  | register (index : Nat)
  | dispatch (name : Bytes)
  | finish
  | destroy
  | unregisterNext
deriving DecidableEq

/-- The classes behind an `iservice*`. `service` is one of the application or a
generated one. -/
inductive ClassName where
  | iservice
  | mono_state_service
  | service (cls : Nat)
deriving DecidableEq

/-- The class a pointer is declared with, as far as `delete` looks at it. -/
structure StaticClass where
  name : ClassName
  virtualDestructor : Bool

/-- iservice.hpp declares no destructor. -/
def iservice : StaticClass := ⟨.iservice, false⟩

/-- The class of the object behind the pointer, which is never the abstract `iservice`. -/
def dynamicClass : Service → ClassName
  | .own object => .service object.cls
  | .mono _ _ => .mono_state_service

/-- `delete` runs the destructor of the object's class if that is the class of
the pointer or the destructor is virtual. Otherwise C++ leaves the behaviour
undefined: the memory goes back without the destructor. -/
def StaticClass.delete (static : StaticClass) (svc : Service) : List Event :=
  if static.name = dynamicClass svc ∨ static.virtualDestructor then [.destructed svc, .deleted svc]
  else [.deleted svc]

namespace Owner

def new (info : ConnectionInfo) : Owner := ⟨.unborn, ⟨info, []⟩, [], 0⟩

/-- `register_service`: the service under the name is deleted first. -/
def handOver (owner : Owner) (name : Bytes) (svc : Service) : Owner × List Event :=
  ({ owner with handler := (owner.handler.registerService name svc).1 },
    (owner.handler.registerService name svc).2.flatMap iservice.delete ++ [.handed name svc])

def step (owner : Owner) : Action → Option (Owner × List Event)
  | .construct found =>
    if owner.stage = .unborn then
      some ({ owner with
        stage := .creating (RequestHandler.factoriesOf (fun _ => found) owner.handler.info) }, [])
    else none
  | .createNext =>
    match owner.stage with
    | .creating ((name, factory) :: rest) =>
      some ({ owner with stage := .creating rest, fresh := owner.fresh + 1 }.handOver name
        (factory.create owner.fresh))
    | .creating [] => some ({ owner with stage := .ready }, [])
    | _ => none
  | .post name cls =>
    some ({ owner with
      posted := owner.posted ++ [(name, ⟨owner.fresh, cls⟩)]
      fresh := owner.fresh + 1 }, [.posted name (.own ⟨owner.fresh, cls⟩)])
  | .register index =>
    match owner.stage, owner.posted[index]? with
    | .ready, some (name, svc) =>
      some ({ owner with posted := owner.posted.eraseIdx index }.handOver name (.own svc))
    | _, _ => none
  | .dispatch name =>
    if owner.stage = .ready then
      match owner.handler.find name with
      | none => some (owner, [])
      | some svc => some ({ owner with stage := .dispatching svc }, [.dispatched name svc])
    else none
  | .finish =>
    match owner.stage with
    | .dispatching svc => some ({ owner with stage := .ready }, [.returned svc])
    | _ => none
  | .destroy =>
    if owner.stage = .ready then
      some ({ owner with stage := .destroying (owner.handler.serviceMap.map Prod.fst) },
        [.destroying])
    else none
  | .unregisterNext =>
    match owner.stage with
    | .destroying (name :: rest) =>
      some ({ owner with
          stage := .destroying rest
          handler := (owner.handler.unregisterService name).1 },
        (owner.handler.unregisterService name).2.flatMap iservice.delete)
    | .destroying [] => some ({ owner with stage := .destroyed }, [.destroyed])
    | _ => none

end Owner

def machine (info : ConnectionInfo) : Machine Owner Action Event := ⟨Owner.new info, Owner.step⟩

theorem iservice_delete (svc : Service) : iservice.delete svc = [.deleted svc] := by
  cases svc <;> rfl

theorem iservice_deletes (removed : List Service) :
    removed.flatMap iservice.delete = removed.map .deleted := by
  rw [List.map_eq_flatMap]
  exact List.flatMap_congr fun svc _ => iservice_delete svc

theorem handOver_eq (owner : Owner) (name : Bytes) (svc : Service) :
    owner.handOver name svc =
      ({ owner with handler := (owner.handler.registerService name svc).1 },
        (owner.handler.registerService name svc).2.map .deleted ++ [.handed name svc]) := by
  rw [Owner.handOver, iservice_deletes]

/-- Uninterrupted, the constructor leaves the handler of `RequestHandler.new`. -/
theorem construct_new (info : ConnectionInfo) (handler : RequestHandler) (fresh : Nat)
    (posted : List (Bytes × ServiceObject)) (factories : Factories) :
    ∃ events, exec (machine info) ⟨.creating factories, handler, posted, fresh⟩
      (List.replicate (factories.length + 1) .createNext) =
      some (⟨.ready, handler.createAndRegister fresh factories, posted,
        fresh + factories.length⟩, events) := by
  induction factories generalizing handler fresh with
  | nil => exact ⟨_, rfl⟩
  | cons entry rest ih =>
    obtain ⟨name, factory⟩ := entry
    obtain ⟨events, done⟩ := ih (handler.registerService name (factory.create fresh)).1 (fresh + 1)
    refine ⟨((handler.registerService name (factory.create fresh)).2.flatMap iservice.delete ++
      [.handed name (factory.create fresh)]) ++ events, ?_⟩
    rw [List.length_cons, List.replicate_succ, exec]
    simp only [machine, Owner.step, Owner.handOver] at done ⊢
    rw [done]
    simp only [RequestHandler.createAndRegister, Option.some.injEq, Prod.mk.injEq, Owner.mk.injEq,
      true_and, and_true]
    omega

/-! A `std::map` as a list of entries. -/

theorem lookup_split {name : Bytes} {entries : List (Bytes × Service)}
    (distinct : (entries.map Prod.fst).Nodup) :
    ((entries.filter (fun entry => entry.1 ≠ name)).map Prod.snd ++
      (entries.lookup name).toList).Perm (entries.map Prod.snd) := by
  induction entries with
  | nil => simp
  | cons entry rest ih =>
    obtain ⟨key, svc⟩ := entry
    rw [List.map_cons, List.nodup_cons] at distinct
    by_cases here : key = name
    · subst here
      have whole : rest.filter (fun entry => entry.1 ≠ key) = rest :=
        List.filter_eq_self.mpr (fun entry member => by
          simp only [decide_eq_true_eq]
          exact fun same => distinct.1 (List.mem_map.mpr ⟨entry, member, same⟩))
      rw [List.filter_cons_of_neg (by simp), whole, List.lookup_cons_self]
      exact List.perm_append_singleton ..
    · have different : (name == key) = false := by simpa using Ne.symm here
      rw [List.filter_cons_of_pos (by simpa using here), List.lookup_cons, different]
      exact (ih distinct.2).cons svc

section Map
variable (handler : RequestHandler) (name : Bytes)

theorem unregisterService_map (handler : RequestHandler) (name : Bytes) :
    (handler.unregisterService name).1.serviceMap =
      handler.serviceMap.filter (fun entry => entry.1 ≠ name) := by
  unfold RequestHandler.unregisterService
  split
  · next absent =>
    refine (List.filter_eq_self.mpr (fun entry member => ?_)).symm
    simp only [decide_eq_true_eq]
    rintro rfl
    have found : handler.serviceMap.lookup entry.1 ≠ none := by
      rw [Ne, List.lookup_eq_none_iff]
      intro apart
      have unequal := apart entry member
      simp at unequal
    exact found absent
  · rfl

theorem unregisterService_deleted :
    (handler.unregisterService name).2 = (handler.find name).toList := by
  unfold RequestHandler.unregisterService
  split
  · next absent => rw [absent]; rfl
  · next svc found => rw [found]; rfl

theorem unregisterService_balance (distinct : (handler.serviceMap.map Prod.fst).Nodup) :
    ((handler.unregisterService name).1.serviceMap.map Prod.snd ++
      (handler.unregisterService name).2).Perm (handler.serviceMap.map Prod.snd) := by
  rw [unregisterService_map, unregisterService_deleted]
  exact lookup_split distinct

theorem registerService_map (svc : Service) :
    (handler.registerService name svc).1.serviceMap =
      (name, svc) :: (handler.unregisterService name).1.serviceMap := rfl

theorem registerService_distinct (svc : Service)
    (distinct : (handler.serviceMap.map Prod.fst).Nodup) :
    ((handler.registerService name svc).1.serviceMap.map Prod.fst).Nodup := by
  rw [registerService_map, unregisterService_map, List.map_cons, List.nodup_cons]
  constructor
  · intro member
    obtain ⟨entry, kept, same⟩ := List.mem_map.mp member
    have apart := (List.mem_filter.mp kept).2
    simp only [decide_eq_true_eq] at apart
    exact apart same
  · exact (List.filter_sublist.map Prod.fst).nodup distinct

end Map

/-- `service_factory::create` and the callers of `register_service` allocate the
object the map points to. -/
def address : Service → Nat
  | .own object => object.id
  | .mono wrapper _ => wrapper

theorem address_create (fresh : Nat) (factory : Factory) :
    address (factory.create fresh) = fresh := by
  cases factory <;> rfl

def handedOver (events : List Event) : List Service :=
  events.filterMap fun
    | .handed _ svc => some svc
    | _ => none

def deletions (events : List Event) : List Service :=
  events.filterMap fun
    | .deleted svc => some svc
    | _ => none

def latest (name : Bytes) (events : List Event) : Option Service :=
  (events.filterMap fun
    | .handed other svc => if other = name then some svc else none
    | _ => none).getLast?

@[simp] theorem handedOver_append (first second : List Event) :
    handedOver (first ++ second) = handedOver first ++ handedOver second :=
  List.filterMap_append

@[simp] theorem deletions_append (first second : List Event) :
    deletions (first ++ second) = deletions first ++ deletions second :=
  List.filterMap_append

@[simp] theorem deletions_deleted (removed : List Service) :
    deletions (removed.map .deleted) = removed := by
  induction removed with
  | nil => rfl
  | cons svc rest ih => exact congrArg (svc :: ·) ih

@[simp] theorem handedOver_deleted (removed : List Service) :
    handedOver (removed.map .deleted) = [] := by
  induction removed with
  | nil => rfl
  | cons svc rest ih => exact ih

theorem mem_deletions {svc : Service} {events : List Event} :
    svc ∈ deletions events ↔ .deleted svc ∈ events := by
  simp only [deletions, List.mem_filterMap]
  constructor
  · rintro ⟨event, member, found⟩
    cases event with
    | deleted other => exact Option.some.inj found ▸ member
    | _ => cases found
  · exact fun member => ⟨_, member, rfl⟩

theorem latest_silent {name : Bytes} {first second : List Event}
    (silent : handedOver second = []) : latest name (first ++ second) = latest name first := by
  have quiet : (second.filterMap fun
      | .handed other svc => if other = name then some svc else none
      | _ => none) = [] := by
    refine List.filterMap_eq_nil_iff.mpr (fun event member => ?_)
    have nothing := List.filterMap_eq_nil_iff.mp silent event member
    cases event with
    | handed => cases nothing
    | _ => rfl
  rw [latest, List.filterMap_append, quiet, List.append_nil, latest]

theorem latest_handed (name other : Bytes) (svc : Service) (events : List Event) :
    latest other (events ++ [.handed name svc]) =
      if name = other then some svc else latest other events := by
  rw [latest, List.filterMap_append]
  split
  · next same =>
    subst same
    simp
  · next apart => simp [apart, latest]

inductive Turn (owner : Owner) : Action → Owner → List Event → Prop where
  | construct (found : Option Factories) (here : owner.stage = .unborn) :
      Turn owner (.construct found) { owner with
        stage := .creating (RequestHandler.factoriesOf (fun _ => found) owner.handler.info) } []
  | createNext (name : Bytes) (factory : Factory) (rest : Factories)
      (here : owner.stage = .creating ((name, factory) :: rest)) :
      Turn owner .createNext
        ({ owner with stage := .creating rest, fresh := owner.fresh + 1 }.handOver name
          (factory.create owner.fresh)).1
        (owner.handOver name (factory.create owner.fresh)).2
  | created (here : owner.stage = .creating []) :
      Turn owner .createNext { owner with stage := .ready } []
  | post (name : Bytes) (cls : Nat) :
      Turn owner (.post name cls) { owner with
        posted := owner.posted ++ [(name, ⟨owner.fresh, cls⟩)]
        fresh := owner.fresh + 1 } [.posted name (.own ⟨owner.fresh, cls⟩)]
  | register (index : Nat) (name : Bytes) (svc : ServiceObject) (here : owner.stage = .ready)
      (found : owner.posted[index]? = some (name, svc)) :
      Turn owner (.register index)
        ({ owner with posted := owner.posted.eraseIdx index }.handOver name (.own svc)).1
        (owner.handOver name (.own svc)).2
  | refuse (name : Bytes) : Turn owner (.dispatch name) owner []
  | dispatch (name : Bytes) (svc : Service) (here : owner.stage = .ready)
      (found : owner.handler.find name = some svc) :
      Turn owner (.dispatch name) { owner with stage := .dispatching svc } [.dispatched name svc]
  | finish (svc : Service) (here : owner.stage = .dispatching svc) :
      Turn owner .finish { owner with stage := .ready } [.returned svc]
  | destroy (here : owner.stage = .ready) :
      Turn owner .destroy
        { owner with stage := .destroying (owner.handler.serviceMap.map Prod.fst) } [.destroying]
  | unregisterNext (name : Bytes) (rest : List Bytes)
      (here : owner.stage = .destroying (name :: rest)) :
      Turn owner .unregisterNext { owner with
          stage := .destroying rest
          handler := (owner.handler.unregisterService name).1 }
        ((owner.handler.unregisterService name).2.map .deleted)
  | destroyed (here : owner.stage = .destroying []) :
      Turn owner .unregisterNext { owner with stage := .destroyed } [.destroyed]

theorem step_turn {info : ConnectionInfo} {owner after : Owner} {action : Action}
    {emitted : List Event} (fired : (machine info).step owner action = some (after, emitted)) :
    Turn owner action after emitted := by
  have taken : owner.step action = some (after, emitted) := fired
  cases action with
  | construct found =>
    simp only [Owner.step] at taken
    split at taken
    · next here =>
      cases taken
      exact .construct found here
    · cases taken
  | createNext =>
    simp only [Owner.step] at taken
    split at taken
    · next name factory rest here =>
      cases taken
      exact .createNext name factory rest here
    · next here =>
      cases taken
      exact .created here
    · cases taken
  | post name cls =>
    cases taken
    exact .post name cls
  | register index =>
    simp only [Owner.step] at taken
    split at taken
    · next name svc here found =>
      cases taken
      exact .register index name svc here found
    · cases taken
  | dispatch name =>
    simp only [Owner.step] at taken
    split at taken
    · next here =>
      split at taken
      · cases taken
        exact .refuse name
      · next svc found =>
        cases taken
        exact .dispatch name svc here found
    · cases taken
  | finish =>
    simp only [Owner.step] at taken
    split at taken
    · next svc here =>
      cases taken
      exact .finish svc here
    · cases taken
  | destroy =>
    simp only [Owner.step] at taken
    split at taken
    · next here =>
      cases taken
      exact .destroy here
    · cases taken
  | unregisterNext =>
    simp only [Owner.step] at taken
    split at taken
    · next name rest here =>
      rw [iservice_deletes] at taken
      cases taken
      exact .unregisterNext name rest here
    · next here =>
      cases taken
      exact .destroyed here
    · cases taken

/-- Where the services are stored: those handed over and those still posted. -/
def addresses (events : List Event) (posted : List (Bytes × ServiceObject)) : List Nat :=
  (handedOver events).map address ++ posted.map (fun entry => entry.2.id)

/-- What holds between two steps. A service is in the map or has been deleted. -/
structure Owned (events : List Event) (owner : Owner) : Prop where
  distinct : (owner.handler.serviceMap.map Prod.fst).Nodup
  balance : (owner.handler.serviceMap.map Prod.snd ++ deletions events).Perm (handedOver events)
  apart : (addresses events owner.posted).Nodup
  allocated : ∀ place ∈ addresses events owner.posted, place < owner.fresh
  found : ∀ name svc, owner.handler.find name = some svc → latest name events = some svc
  kept : .destroying ∉ events → ∀ name svc, latest name events = some svc →
    owner.handler.find name = some svc

def Staged (events : List Event) (owner : Owner) : Prop :=
  match owner.stage with
  | .destroying rest => .destroying ∈ events ∧ owner.handler.serviceMap.map Prod.fst = rest
  | .destroyed => .destroying ∈ events ∧ owner.handler.serviceMap = []
  | _ => .destroying ∉ events

section Keep
variable {info : ConnectionInfo} {owner after : Owner} {events emitted : List Event}
  {action : Action} {allowed : Owner → Action → Prop}

theorem latest_handOver (owner : Owner) (name other : Bytes) (svc : Service)
    (events : List Event) :
    latest other (events ++ (owner.handOver name svc).2) =
      if name = other then some svc else latest other events := by
  rw [handOver_eq, ← List.append_assoc, latest_handed]
  split
  · rfl
  · exact latest_silent (handedOver_deleted _)

theorem handedOver_handOver (owner : Owner) (name : Bytes) (svc : Service) :
    handedOver (owner.handOver name svc).2 = [svc] := by
  rw [handOver_eq, handedOver_append, handedOver_deleted]
  rfl

theorem deletions_handOver (owner : Owner) (name : Bytes) (svc : Service) :
    deletions (owner.handOver name svc).2 = (owner.handler.unregisterService name).2 := by
  rw [handOver_eq, deletions_append, deletions_deleted]
  exact List.append_nil _

theorem Owned.handOver (owned : Owned events owner) (alive : .destroying ∉ events)
    (name : Bytes) (svc : Service) (next : Owner) (same : next.handler = owner.handler)
    (apart : (addresses (events ++ (owner.handOver name svc).2) next.posted).Nodup)
    (allocated : ∀ place ∈ addresses (events ++ (owner.handOver name svc).2) next.posted,
      place < next.fresh) :
    Owned (events ++ (owner.handOver name svc).2) (next.handOver name svc).1 where
  distinct := by
    rw [handOver_eq, same]
    exact registerService_distinct _ _ _ owned.distinct
  balance := by
    have removed := unregisterService_balance owner.handler name owned.distinct
    rw [deletions_append, deletions_handOver, handedOver_append, handedOver_handOver,
      handOver_eq, same, registerService_map, List.map_cons]
    calc
      _ = svc :: ((owner.handler.unregisterService name).1.serviceMap.map Prod.snd ++
            (deletions events ++ (owner.handler.unregisterService name).2)) := rfl
      List.Perm _ (svc :: ((owner.handler.unregisterService name).1.serviceMap.map Prod.snd ++
            ((owner.handler.unregisterService name).2 ++ deletions events))) :=
          (List.perm_append_comm.append_left _).cons svc
      _ = svc :: ((owner.handler.unregisterService name).1.serviceMap.map Prod.snd ++
            (owner.handler.unregisterService name).2 ++ deletions events) := by
          rw [List.append_assoc]
      List.Perm _ (svc :: (owner.handler.serviceMap.map Prod.snd ++ deletions events)) :=
          (removed.append_right _).cons svc
      List.Perm _ (svc :: handedOver events) := owned.balance.cons svc
      List.Perm _ (handedOver events ++ [svc]) := (List.perm_append_singleton _ _).symm
  apart := apart
  allocated := allocated
  found other found held := by
    rw [handOver_eq, same, registerService_find] at held
    rw [latest_handOver]
    by_cases here : other = name
    · rw [if_pos here] at held
      rw [if_pos here.symm, held]
    · rw [if_neg here] at held
      rw [if_neg (Ne.symm here)]
      exact owned.found other found held
  kept _ other found last := by
    rw [latest_handOver] at last
    rw [handOver_eq, same, registerService_find]
    by_cases here : other = name
    · rw [if_pos here.symm] at last
      rw [if_pos here, last]
    · rw [if_neg (Ne.symm here)] at last
      rw [if_neg here]
      exact owned.kept alive other found last

theorem Owned.silent (owned : Owned events owner) (handedNone : handedOver emitted = [])
    (deletedNone : deletions emitted = []) (handler : after.handler = owner.handler)
    (posted : after.posted = owner.posted) (fresh : after.fresh = owner.fresh) :
    Owned (events ++ emitted) after where
  distinct := by rw [handler]; exact owned.distinct
  balance := by
    rw [handler, deletions_append, handedOver_append, handedNone, deletedNone, List.append_nil,
      List.append_nil]
    exact owned.balance
  apart := by
    rw [addresses, handedOver_append, handedNone, List.append_nil, posted]
    exact owned.apart
  allocated := by
    rw [addresses, handedOver_append, handedNone, List.append_nil, posted, fresh]
    exact owned.allocated
  found name svc held := by
    rw [latest_silent handedNone]
    rw [handler] at held
    exact owned.found name svc held
  kept alive name svc last := by
    rw [latest_silent handedNone] at last
    rw [handler]
    exact owned.kept (fun gone => alive (List.mem_append_left _ gone)) name svc last

theorem Owned.post (owned : Owned events owner) (name : Bytes) (cls : Nat) :
    Owned (events ++ [.posted name (.own ⟨owner.fresh, cls⟩)]) { owner with
      posted := owner.posted ++ [(name, ⟨owner.fresh, cls⟩)], fresh := owner.fresh + 1 } := by
  have silent : Owned (events ++ [.posted name (.own ⟨owner.fresh, cls⟩)]) owner :=
    owned.silent rfl rfl rfl rfl rfl
  have more : addresses (events ++ [.posted name (.own ⟨owner.fresh, cls⟩)])
      (owner.posted ++ [(name, ⟨owner.fresh, cls⟩)]) =
      addresses (events ++ [.posted name (.own ⟨owner.fresh, cls⟩)]) owner.posted ++
        [owner.fresh] := by
    simp [addresses]
  refine ⟨silent.distinct, silent.balance, ?_, ?_, silent.found, silent.kept⟩
  · rw [more, List.nodup_append]
    refine ⟨silent.apart, List.nodup_singleton _, fun place member other last => ?_⟩
    have below := silent.allocated place member
    rw [List.mem_singleton.mp last]
    omega
  · rw [more]
    intro place member
    simp only
    rcases List.mem_append.mp member with old | new
    · have below := silent.allocated place old
      omega
    · rw [List.mem_singleton.mp new]
      omega

theorem addresses_handOver (events : List Event) (owner : Owner) (name : Bytes) (svc : Service)
    (posted : List (Bytes × ServiceObject)) :
    (addresses (events ++ (owner.handOver name svc).2) posted).Perm
      (address svc :: addresses events posted) := by
  rw [addresses, handedOver_append, handedOver_handOver, List.map_append, List.append_assoc]
  exact List.perm_middle

theorem addresses_eraseIdx (events : List Event) {posted : List (Bytes × ServiceObject)} {index : Nat} {name : Bytes}
    {svc : ServiceObject} (found : posted[index]? = some (name, svc)) :
    (svc.id :: addresses events (posted.eraseIdx index)).Perm (addresses events posted) := by
  obtain ⟨bound, same⟩ := List.getElem?_eq_some_iff.mp found
  have split := List.getElem_cons_eraseIdx_perm bound
  rw [same] at split
  calc
    List.Perm _ ((handedOver events).map address ++
        (svc.id :: (posted.eraseIdx index).map (fun entry => entry.2.id))) := List.perm_middle.symm
    List.Perm _ (addresses events posted) :=
      (split.map (fun entry => entry.2.id)).append_left _

theorem Owned.createNext (owned : Owned events owner) (alive : .destroying ∉ events)
    (name : Bytes) (factory : Factory) (stage : Stage) :
    Owned (events ++ (owner.handOver name (factory.create owner.fresh)).2)
      ({ owner with stage := stage, fresh := owner.fresh + 1 }.handOver name
        (factory.create owner.fresh)).1 := by
  have all := addresses_handOver events owner name (factory.create owner.fresh)
    owner.posted
  rw [address_create] at all
  refine owned.handOver alive name _ _ rfl ?_ ?_
  · refine all.nodup_iff.mpr (List.nodup_cons.mpr ⟨fun member => ?_, owned.apart⟩)
    have below := owned.allocated _ member
    omega
  · intro place member
    simp only
    rcases List.mem_cons.mp (all.mem_iff.mp member) with rfl | old
    · omega
    · have below := owned.allocated place old
      omega

theorem Owned.register (owned : Owned events owner) (alive : .destroying ∉ events) {index : Nat}
    {name : Bytes} {svc : ServiceObject} (found : owner.posted[index]? = some (name, svc)) :
    Owned (events ++ (owner.handOver name (.own svc)).2)
      ({ owner with posted := owner.posted.eraseIdx index }.handOver name (.own svc)).1 := by
  have all := (addresses_handOver events owner name (.own svc) (owner.posted.eraseIdx index)).trans
    (addresses_eraseIdx events found)
  refine owned.handOver alive name _ _ rfl ?_ ?_
  · exact all.nodup_iff.mpr owned.apart
  · exact fun place member => owned.allocated place (all.mem_iff.mp member)

theorem Owned.unregisterNext (owned : Owned events owner) (gone : .destroying ∈ events)
    (name : Bytes) (rest : List Bytes) :
    Owned (events ++ (owner.handler.unregisterService name).2.map .deleted) { owner with
      stage := .destroying rest
      handler := (owner.handler.unregisterService name).1 } where
  distinct := by
    simp only [unregisterService_map]
    exact (List.filter_sublist.map Prod.fst).nodup owned.distinct
  balance := by
    have removed := unregisterService_balance owner.handler name owned.distinct
    rw [deletions_append, deletions_deleted, handedOver_append, handedOver_deleted, List.append_nil]
    calc
      List.Perm _ ((owner.handler.unregisterService name).1.serviceMap.map Prod.snd ++
          ((owner.handler.unregisterService name).2 ++ deletions events)) :=
        List.perm_append_comm.append_left _
      _ = (owner.handler.unregisterService name).1.serviceMap.map Prod.snd ++
          (owner.handler.unregisterService name).2 ++ deletions events := by
        rw [List.append_assoc]
      List.Perm _ (owner.handler.serviceMap.map Prod.snd ++ deletions events) :=
        removed.append_right _
      List.Perm _ (handedOver events) := owned.balance
  apart := by
    rw [addresses, handedOver_append, handedOver_deleted, List.append_nil]
    exact owned.apart
  allocated := by
    rw [addresses, handedOver_append, handedOver_deleted, List.append_nil]
    exact owned.allocated
  found other found held := by
    rw [latest_silent (handedOver_deleted _)]
    refine owned.found other found ?_
    simp only [RequestHandler.find, unregisterService_map] at held
    by_cases here : other = name
    · subst here
      have absent : (owner.handler.serviceMap.filter (fun entry => entry.1 ≠ other)).lookup other =
          none := by
        refine List.lookup_eq_none_iff.mpr (fun entry member => ?_)
        have apart := (List.mem_filter.mp member).2
        simp only [decide_eq_true_eq] at apart
        simpa using Ne.symm apart
      rw [absent] at held
      cases held
    · rw [lookup_filter_ne here] at held
      exact held
  kept alive := absurd (List.mem_append_left _ gone) alive

theorem owned_step (owned : Owned events owner) (staged : Staged events owner)
    (turn : Turn owner action after emitted) : Owned (events ++ emitted) after := by
  cases turn with
  | construct found here => exact owned.silent rfl rfl rfl rfl rfl
  | createNext name factory rest here =>
    rw [Staged, here] at staged
    exact owned.createNext staged name factory _
  | created here => exact owned.silent rfl rfl rfl rfl rfl
  | post name cls => exact owned.post name cls
  | register index name svc here found =>
    rw [Staged, here] at staged
    exact owned.register staged found
  | refuse name => exact owned.silent rfl rfl rfl rfl rfl
  | dispatch name svc here found => exact owned.silent rfl rfl rfl rfl rfl
  | finish svc here => exact owned.silent rfl rfl rfl rfl rfl
  | destroy here => exact owned.silent rfl rfl rfl rfl rfl
  | unregisterNext name rest here =>
    rw [Staged, here] at staged
    exact owned.unregisterNext staged.1 name rest
  | destroyed here => exact owned.silent rfl rfl rfl rfl rfl

theorem destroying_not_handOver (owner : Owner) (name : Bytes) (svc : Service) :
    .destroying ∉ (owner.handOver name svc).2 := by
  simp [handOver_eq]

theorem staged_step (owned : Owned events owner) (staged : Staged events owner)
    (turn : Turn owner action after emitted) : Staged (events ++ emitted) after := by
  cases turn with
  | construct found here =>
    rw [Staged, here] at staged
    simpa [Staged] using staged
  | createNext name factory rest here =>
    rw [Staged, here] at staged
    exact fun gone => (List.mem_append.mp gone).elim staged (destroying_not_handOver _ _ _)
  | created here =>
    rw [Staged, here] at staged
    simpa [Staged] using staged
  | post name cls =>
    unfold Staged at staged ⊢
    simpa using staged
  | register index name svc here found =>
    rw [Staged, here] at staged
    have ready : ({ owner with posted := owner.posted.eraseIdx index }.handOver name
        (.own svc)).1.stage = .ready := here
    rw [Staged, ready]
    exact fun gone => (List.mem_append.mp gone).elim staged (destroying_not_handOver _ _ _)
  | refuse name => simpa using staged
  | dispatch name svc here found =>
    rw [Staged, here] at staged
    simpa [Staged] using staged
  | finish svc here =>
    rw [Staged, here] at staged
    simpa [Staged] using staged
  | destroy here => simp [Staged]
  | unregisterNext name rest here =>
    rw [Staged, here] at staged
    obtain ⟨gone, names⟩ := staged
    refine ⟨List.mem_append_left _ gone, ?_⟩
    simp only [unregisterService_map]
    have distinct := owned.distinct
    generalize owner.handler.serviceMap = entries at names distinct
    cases entries with
    | nil => cases names
    | cons head remaining =>
      simp only [List.map_cons, List.cons.injEq] at names
      obtain ⟨rfl, rfl⟩ := names
      rw [List.map_cons, List.nodup_cons] at distinct
      rw [List.filter_cons_of_neg (by simp), List.filter_eq_self.mpr (fun entry member => ?_)]
      simp only [decide_eq_true_eq]
      exact fun same => distinct.1 (List.mem_map.mpr ⟨entry, member, same⟩)
  | destroyed here =>
    rw [Staged, here] at staged
    exact ⟨List.mem_append_left _ staged.1, List.map_eq_nil_iff.mp staged.2⟩

theorem owned_of_run (run : Run (machine info) allowed events owner) :
    Owned events owner ∧ Staged events owner := by
  refine Steps.invariant (fun events owner => Owned events owner ∧ Staged events owner) ?_ ?_ run
  · refine ⟨⟨List.nodup_nil, .refl _, List.nodup_nil, ?_, ?_, ?_⟩, ?_⟩
    · exact fun place member => absurd member List.not_mem_nil
    · exact fun name svc held => absurd held (by simp [machine, Owner.new, RequestHandler.find])
    · exact fun _ name svc last => absurd last (by simp [latest])
    · simp [Staged, machine, Owner.new]
  · intro events owner action emitted after _ both _ fired
    have turn := step_turn fired
    exact ⟨owned_step both.1 both.2 turn, staged_step both.1 both.2 turn⟩

theorem deleted_turn {pre post : List Event} {svc : Service}
    (turn : Turn owner action after (pre ++ .deleted svc :: post)) :
    pre = [] ∧ (∀ running, owner.stage ≠ .dispatching running) ∧
      ((∃ rest, owner.stage = .destroying rest) ∨
        ∃ name new, owner.handler.find name = some svc ∧ post = [.handed name new]) := by
  have handing : ∀ name new, pre ++ .deleted svc :: post = (owner.handOver name new).2 →
      pre = [] ∧ owner.handler.find name = some svc ∧ post = [.handed name new] := by
    intro name new shape
    rw [handOver_eq, show (owner.handler.registerService name new).2 = _ from
      unregisterService_deleted owner.handler name] at shape
    cases found : owner.handler.find name with
    | none =>
      rw [found] at shape
      cases pre with
      | nil => simp at shape
      | cons head tail => simp at shape
    | some old =>
      rw [found] at shape
      cases pre with
      | nil => simpa [eq_comm] using shape
      | cons head tail => simp [List.append_eq_cons_iff] at shape
  generalize emission : pre ++ .deleted svc :: post = emitted at turn
  have member : .deleted svc ∈ emitted := emission ▸ by simp
  cases turn with
  | createNext name factory rest here =>
    obtain ⟨alone, found, next⟩ := handing _ _ emission
    exact ⟨alone, by simp [here], .inr ⟨_, _, found, next⟩⟩
  | register index name svc here found =>
    obtain ⟨alone, held, next⟩ := handing _ _ emission
    exact ⟨alone, by simp [here], .inr ⟨_, _, held, next⟩⟩
  | unregisterNext name rest here =>
    refine ⟨?_, by simp [here], .inl ⟨_, here⟩⟩
    rw [unregisterService_deleted] at emission
    cases found : owner.handler.find name with
    | none => simp [found] at emission
    | some old =>
      rw [found] at emission
      cases pre with
      | nil => rfl
      | cons head tail => simp at emission
  | _ => simp at member

theorem handed_turn {pre post : List Event} {name : Bytes} {svc : Service}
    (turn : Turn owner action after (pre ++ .handed name svc :: post)) :
    ((∃ rest, owner.stage = .creating rest) ∨ owner.stage = .ready) ∧
      pre = (owner.handler.find name).toList.map .deleted := by
  have handing : ∀ other new, pre ++ .handed name svc :: post = (owner.handOver other new).2 →
      pre = (owner.handler.find name).toList.map .deleted := by
    intro other new shape
    rw [handOver_eq, show (owner.handler.registerService other new).2 = _ from
      unregisterService_deleted owner.handler other] at shape
    rcases append_split shape.symm with ⟨later, inside, -⟩ | ⟨between, whole, last⟩
    · have member : .handed name svc ∈ (owner.handler.find other).toList.map Event.deleted :=
        inside ▸ by simp
      simp at member
    · cases between with
      | nil =>
        simp only [List.nil_append, List.cons.injEq, Event.handed.injEq] at last
        rw [whole, List.append_nil, last.1.1]
      | cons head tail => simp at last
  generalize emission : pre ++ .handed name svc :: post = emitted at turn
  have member : .handed name svc ∈ emitted := emission ▸ by simp
  cases turn with
  | createNext name factory rest here => exact ⟨.inl ⟨_, here⟩, handing _ _ emission⟩
  | register index name svc here found => exact ⟨.inr here, handing _ _ emission⟩
  | _ => simp at member

def Running (events : List Event) (owner : Owner) : Prop :=
  ∀ before name svc later, events = before ++ .dispatched name svc :: later →
    .returned svc ∉ later → owner.stage = .dispatching svc

theorem running_step (running : Running events owner) (turn : Turn owner action after emitted) :
    Running (events ++ emitted) after := by
  have earlier : ∀ svc later, .returned svc ∉ later ++ emitted → .returned svc ∉ later :=
    fun svc later absent member => absent (List.mem_append_left _ member)
  have kept : (∀ name svc, .dispatched name svc ∉ emitted) →
      (∀ svc, owner.stage = .dispatching svc → .returned svc ∈ emitted ∨
        after.stage = .dispatching svc) → Running (events ++ emitted) after := by
    intro silent stays before name svc later shape absent
    rcases append_split shape with ⟨rest, inside, rfl⟩ | ⟨pre, -, last⟩
    · rcases stays svc (running before name svc rest inside (earlier svc rest absent)) with
        gone | same
      · exact absurd (List.mem_append_right _ gone) absent
      · exact same
    · exact absurd (last ▸ by simp) (silent name svc)
  cases turn with
  | createNext name factory rest here =>
    exact kept (by simp [handOver_eq]) (by simp [here])
  | register index name svc here found => exact kept (by simp [handOver_eq]) (by simp [here])
  | dispatch name svc here found =>
    intro before other inner later shape absent
    rcases append_split shape with ⟨rest, inside, rfl⟩ | ⟨pre, -, last⟩
    · have busy := running before other inner rest inside (earlier inner rest absent)
      rw [here] at busy
      cases busy
    · cases pre with
      | nil =>
        simp only [List.nil_append, List.cons.injEq, Event.dispatched.injEq] at last
        simp only [last.1.2]
      | cons head tail => simp at last
  | unregisterNext name rest here => exact kept (by simp) (by simp [here])
  | construct found here | created here | destroy here | destroyed here =>
    exact kept (by simp) (by simp [here])
  | post name cls => exact kept (by simp) (fun svc busy => .inr busy)
  | refuse name => exact kept (by simp) (fun svc busy => .inr busy)
  | finish svc here =>
    refine kept (by simp) (fun other busy => .inl ?_)
    rw [here, Stage.dispatching.injEq] at busy
    simp [busy]

theorem running_of_run (run : Run (machine info) allowed events owner) : Running events owner := by
  refine Steps.invariant (fun events owner => Running events owner) ?_ ?_ run
  · intro before name svc later shape
    simp at shape
  · intro events owner action emitted after _ running _ fired
    exact running_step running (step_turn fired)

end Keep

/-- The map holds the services most recently registered, and each service handed
over meets one `delete`, when it is replaced or when the handler is destroyed. -/
structure Accounts (events : List Event) (owner : Owner) : Prop where
  current : ∀ name svc, owner.handler.find name = some svc →
    latest name events = some svc ∧ .deleted svc ∉ events
  registered : .destroying ∉ events → ∀ name svc, latest name events = some svc →
    owner.handler.find name = some svc
  once : (deletions events).Nodup
  occasion : ∀ before svc rest, events = before ++ .deleted svc :: rest → .destroying ∈ before ∨
    ∃ name new later, latest name before = some svc ∧ rest = .handed name new :: later
  replaced : ∀ before name svc rest, events = before ++ .handed name svc :: rest → ∀ old,
    latest name before = some old → before.getLast? = some (.deleted old)
  complete : owner.stage = .destroyed →
    owner.handler.serviceMap = [] ∧ (deletions events).Perm (handedOver events)
  running : ∀ before name svc middle rest,
    events = before ++ .dispatched name svc :: (middle ++ .deleted svc :: rest) →
      .returned svc ∈ middle

/-- The handler owns its services: what meets a `delete` is destroyed. -/
structure OwnsServices (events : List Event) (owner : Owner) : Prop where
  accounts : Accounts events owner
  destructed : ∀ svc, .deleted svc ∈ events → .destructed svc ∈ events

/-- The step evaluates no `delete`: the name a service is registered under is
free, and the handler is destroyed when it holds no service. -/
def Spares (owner : Owner) : Action → Prop
  | .createNext => ∀ name factory rest, owner.stage = .creating ((name, factory) :: rest) →
    owner.handler.find name = none
  | .register index => ∀ name svc, owner.posted[index]? = some (name, svc) →
    owner.handler.find name = none
  | .unregisterNext => owner.handler.serviceMap = []
  | _ => True

section Result
variable {info : ConnectionInfo} {owner after : Owner} {events emitted : List Event}
  {action : Action} {allowed : Owner → Action → Prop}

theorem Owned.handedOver_nodup (owned : Owned events owner) : (handedOver events).Nodup :=
  ((List.nodup_append.mp owned.apart).1).of_map

theorem Owned.undeleted (owned : Owned events owner) {name : Bytes} {svc : Service}
    (held : owner.handler.find name = some svc) : .deleted svc ∉ events := by
  intro gone
  have nodup := owned.balance.nodup_iff.mpr owned.handedOver_nodup
  have member : svc ∈ owner.handler.serviceMap.map Prod.snd := by
    have removed := unregisterService_balance owner.handler name owned.distinct
    rw [unregisterService_deleted, held] at removed
    exact removed.mem_iff.mp (by simp)
  exact (List.nodup_append.mp nodup).2.2 svc member svc (mem_deletions.mpr gone) rfl

theorem accounts_of_run (run : Run (machine info) anyStep events owner) :
    Accounts events owner where
  current name svc held :=
    have owned := (owned_of_run run).1
    ⟨owned.found name svc held, owned.undeleted held⟩
  registered := (owned_of_run run).1.kept
  once := by
    have owned := (owned_of_run run).1
    have nodup := owned.balance.nodup_iff.mpr owned.handedOver_nodup
    exact (List.nodup_append.mp nodup).2.1
  occasion := by
    intro before svc rest shape
    subst shape
    obtain ⟨earlier, pre, post, later, state, action, final, steps, -, fired, left, -, right⟩ :=
      run.occurs
    obtain ⟨owned, staged⟩ := owned_of_run steps
    obtain ⟨rfl, -, ⟨names, here⟩ | ⟨name, new, held, rfl⟩⟩ := deleted_turn (step_turn fired)
    · rw [Staged, here] at staged
      exact .inl (left ▸ List.mem_append_left _ staged.1)
    · refine .inr ⟨name, new, later, ?_, right⟩
      rw [left, List.append_nil]
      exact owned.found name svc held
  replaced := by
    intro before name svc rest shape old last
    subst shape
    obtain ⟨earlier, pre, post, later, state, action, final, steps, -, fired, left, -, -⟩ :=
      run.occurs
    obtain ⟨owned, staged⟩ := owned_of_run steps
    obtain ⟨alive, rfl⟩ := handed_turn (step_turn fired)
    rw [left, latest_silent (handedOver_deleted _)] at last
    have working : .destroying ∉ earlier := by
      rcases alive with ⟨names, here⟩ | here
      · rw [Staged, here] at staged
        exact staged
      · rw [Staged, here] at staged
        exact staged
    rw [left, owned.kept working name old last]
    exact List.getLast?_concat
  complete gone := by
    obtain ⟨owned, staged⟩ := owned_of_run run
    rw [Staged, gone] at staged
    refine ⟨staged.2, ?_⟩
    have balance := owned.balance
    rw [staged.2] at balance
    exact balance
  running := by
    intro before name svc middle rest shape
    subst shape
    by_contra absent
    have whole : before ++ .dispatched name svc :: (middle ++ .deleted svc :: rest) =
        (before ++ .dispatched name svc :: middle) ++ .deleted svc :: rest := by simp
    rw [whole] at run
    obtain ⟨earlier, pre, post, later, state, action, final, steps, -, fired, left, -, -⟩ :=
      run.occurs
    obtain ⟨rfl, idle, -⟩ := deleted_turn (step_turn fired)
    rw [List.append_nil] at left
    exact idle svc (running_of_run steps before name svc middle left.symm absent)

theorem undestructed_of_run (run : Run (machine info) allowed events owner) (svc : Service) :
    .destructed svc ∉ events := by
  refine Steps.invariant (fun events _ => .destructed svc ∉ events) List.not_mem_nil ?_ run
  intro events owner action emitted after _ absent _ fired member
  rcases List.mem_append.mp member with old | new
  · exact absent old
  · cases step_turn fired <;> simp [handOver_eq] at new

theorem spares_iff (staged : Staged events owner) (turn : Turn owner action after emitted) :
    Spares owner action ↔ deletions emitted = [] := by
  have handing : ∀ name svc, deletions (owner.handOver name svc).2 = [] ↔
      owner.handler.find name = none := by
    intro name svc
    rw [deletions_handOver, unregisterService_deleted]
    cases owner.handler.find name <;> simp
  cases turn with
  | createNext name factory rest here =>
    rw [handing, Spares]
    constructor
    · exact fun free => free name factory rest here
    · intro free other another more same
      rw [here] at same
      cases same
      exact free
  | register index name svc here found =>
    rw [handing, Spares]
    constructor
    · exact fun free => free name svc found
    · intro free other another same
      rw [found] at same
      cases same
      exact free
  | unregisterNext name rest here =>
    rw [Staged, here] at staged
    rw [Spares, deletions_deleted, unregisterService_deleted]
    constructor
    · intro empty
      rw [empty] at staged
      cases staged.2
    · -- the name is one of the map
      intro nothing
      cases held : owner.handler.find name with
      | some svc =>
        rw [held] at nothing
        cases nothing
      | none =>
        have listed : name ∈ owner.handler.serviceMap.map Prod.fst := by
          rw [staged.2]
          exact List.mem_cons_self
        obtain ⟨entry, member, same⟩ := List.mem_map.mp listed
        have apart := List.lookup_eq_none_iff.mp held entry member
        simp [same] at apart
  | destroyed here =>
    rw [Staged, here] at staged
    rw [Spares]
    exact ⟨fun _ => rfl, fun _ => List.map_eq_nil_iff.mp staged.2⟩
  | created here => simp [Spares, deletions, here]
  | construct | post | refuse | dispatch | finish | destroy => simp [Spares, deletions]

theorem spared_iff (run : Run (machine info) anyStep events owner) :
    Run (machine info) Spares events owner ↔ deletions events = [] := by
  constructor
  · intro spared
    refine Steps.invariant (fun events _ => deletions events = []) rfl ?_ spared
    intro events owner action emitted after earlier none spares fired
    have staged := (owned_of_run earlier).2
    rw [deletions_append, none, (spares_iff staged (step_turn fired)).mp spares]
    rfl
  · refine run.invariant (fun events owner => deletions events = [] →
      Run (machine info) Spares events owner) (fun _ => .refl) ?_
    intro events owner action emitted after earlier spared _ fired none
    rw [deletions_append, List.append_eq_nil_iff] at none
    have staged := (owned_of_run earlier).2
    exact (spared none.1).next ((spares_iff staged (step_turn fired)).mpr none.2) fired

/-- Every service handed to a request handler meets one `delete`, when it is
replaced or with the handler, and never during its own `dispatch_request`. As
`iservice` has no virtual destructor, the handler owns its services exactly in
the runs that delete none. The constructor makes the handler of `get_handler`. -/
theorem services_owned (run : Run (machine info) anyStep events owner) :
    Accounts events owner ∧
      (OwnsServices events owner ↔ Run (machine info) Spares events owner) ∧
      ∀ factories handler posted fresh, ∃ made,
        exec (machine info) ⟨.creating factories, handler, posted, fresh⟩
          (List.replicate (factories.length + 1) .createNext) =
          some (⟨.ready, handler.createAndRegister fresh factories, posted,
            fresh + factories.length⟩, made) := by
  have accounts := accounts_of_run run
  refine ⟨accounts, ?_, fun factories handler posted fresh =>
    construct_new info handler fresh posted factories⟩
  rw [spared_iff run]
  constructor
  · intro owns
    apply List.eq_nil_iff_forall_not_mem.mpr
    intro svc listed
    have gone := owns.destructed svc (mem_deletions.mp listed)
    exact undestructed_of_run run svc gone
  · intro none
    refine ⟨accounts, fun svc gone => ?_⟩
    have listed := mem_deletions.mpr gone
    rw [none] at listed
    cases listed

end Result

/-- A service registers another under its own name while it is dispatched. -/
def replacedByItself : List Action :=
  [.construct (some [([65], .perConnection 0), ([66], .singleton ⟨9, 1⟩)]), .createNext, .createNext,
    .createNext, .dispatch [65], .post [65] 2, .finish, .register 0, .dispatch [65], .finish,
    .dispatch [66], .finish, .destroy, .unregisterNext, .unregisterNext, .unregisterNext]

theorem services_owned_replaced :
    ∃ events owner, Run (machine (.router 0 [1])) anyStep events owner ∧
      owner.stage = .destroyed ∧ (handedOver events).length = 3 ∧
      .deleted (.own ⟨0, 0⟩) ∈ events ∧ Accounts events owner :=
  have run := run_reached (machine (.router 0 [1])) replacedByItself
  ⟨_, _, run, by decide +kernel, by decide +kernel, by decide +kernel, (services_owned run).1⟩

/-- A service is created for the connection and deleted with its handler. -/
def createdAndDestroyed : List Action :=
  [.construct (some [([65], .perConnection 0)]), .createNext, .createNext, .destroy, .unregisterNext,
    .unregisterNext]

theorem destructor_skipped :
    ¬ ∀ events owner, Run (machine (.router 0 [1])) anyStep events owner →
      OwnsServices events owner := by
  intro claim
  have owns := claim _ _ (run_reached (machine (.router 0 [1])) createdAndDestroyed)
  have deleted : .deleted (.own ⟨0, 0⟩) ∈
      (reached (machine (.router 0 [1])) createdAndDestroyed).2 := by
    decide +kernel
  have kept : .destructed (.own ⟨0, 0⟩) ∉
      (reached (machine (.router 0 [1])) createdAndDestroyed).2 := by
    decide +kernel
  exact kept (owns.destructed _ deleted)

end Rpcz.ServiceOwnership
