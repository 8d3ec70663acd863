import Rpcz.History

/-!
request_handler_map.hpp keeps every handler it creates. A new handler holds one
service for each entry of the factory map it is created from, and later
registrations only replace services.
-/

namespace Rpcz.HandlerCache
open Automaton Message EventLog RequestHandlers WorkerThread BrokerThread ProcessModel Moves History

theorem lookup_filter_ne {Value : Type} {name other : Bytes} (apart : other ≠ name)
    (entries : List (Bytes × Value)) :
    (entries.filter (fun entry => entry.1 ≠ name)).lookup other = entries.lookup other := by
  induction entries with
  | nil => rfl
  | cons entry rest ih =>
    obtain ⟨key, value⟩ := entry
    by_cases here : key = name
    · subst here
      have different : (other == key) = false := by simpa using apart
      simpa [List.lookup_cons, different] using ih
    · rw [List.filter_cons_of_pos (by simpa using here), List.lookup_cons, List.lookup_cons, ih]

section Services
variable (handler : RequestHandler)

theorem registerService_find (name other : Bytes) (svc : Service) :
    (handler.registerService name svc).1.find other =
      if other = name then some svc else handler.find other := by
  unfold RequestHandler.registerService RequestHandler.find
  by_cases here : other = name
  · subst here
    simp
  · rw [if_neg here]
    have different : (other == name) = false := by simpa using here
    simp only [List.lookup_cons, different]
    unfold RequestHandler.unregisterService
    split
    · rfl
    · exact lookup_filter_ne here _

theorem registerService_info (name : Bytes) (svc : Service) :
    (handler.registerService name svc).1.info = handler.info := by
  unfold RequestHandler.registerService
  rfl

theorem createAndRegister_info (fresh : Nat) (factories : Factories) :
    (handler.createAndRegister fresh factories).info = handler.info := by
  induction factories generalizing handler fresh with
  | nil => rfl
  | cons entry rest ih =>
    rw [RequestHandler.createAndRegister, ih, registerService_info]

theorem createAndRegister_other {name : Bytes} (fresh : Nat) {factories : Factories}
    (absent : name ∉ factories.map Prod.fst) :
    (handler.createAndRegister fresh factories).find name = handler.find name := by
  induction factories generalizing handler fresh with
  | nil => rfl
  | cons entry rest ih =>
    rw [List.map_cons, List.mem_cons, not_or] at absent
    rw [RequestHandler.createAndRegister, ih _ _ absent.2, registerService_find, if_neg absent.1]

theorem createAndRegister_find {name : Bytes} {factory : Factory} (fresh : Nat)
    {factories : Factories} (distinct : (factories.map Prod.fst).Nodup)
    (member : (name, factory) ∈ factories) :
    ∃ address, (handler.createAndRegister fresh factories).find name =
      some (factory.create address) := by
  induction factories generalizing handler fresh with
  | nil => cases member
  | cons entry rest ih =>
    rw [List.map_cons, List.nodup_cons] at distinct
    rw [RequestHandler.createAndRegister]
    rcases List.mem_cons.mp member with rfl | later
    · refine ⟨fresh, ?_⟩
      rw [createAndRegister_other _ _ distinct.1, registerService_find, if_pos rfl]
    · exact ih _ _ distinct.2 later

end Services

/-- One service of the list was created from each entry of the factory map. -/
def HoldsAll (factories : Factories) (services : List (Bytes × Service)) : Prop :=
  ∀ name factory, (name, factory) ∈ factories →
    ∃ address, services.lookup name = some (factory.create address)

theorem new_holdsAll {factories : Nat → Option Factories} {fresh routerIndex : Nat} {sender : Bytes}
    {registered : Factories} (found : factories routerIndex = some registered)
    (distinct : (registered.map Prod.fst).Nodup) :
    HoldsAll registered
      (RequestHandler.new factories fresh (.router routerIndex sender)).serviceMap := by
  intro name factory member
  have entries : RequestHandler.factoriesOf factories (.router routerIndex sender) = registered := by
    simp [RequestHandler.factoriesOf, ConnectionInfo.router, found]
  unfold RequestHandler.new
  rw [entries]
  exact createAndRegister_find _ _ distinct member

theorem new_empty {factories : Nat → Option Factories} {routerIndex : Nat} (fresh : Nat)
    (sender : Bytes) (missing : factories routerIndex = none) :
    (RequestHandler.new factories fresh (.router routerIndex sender)).serviceMap = [] := by
  simp [RequestHandler.new, RequestHandler.factoriesOf, ConnectionInfo.router, missing,
    RequestHandler.createAndRegister]

/-- A kept handler was created for its connection and has lost no service since. -/
def Cached (index : Nat) (events : List Event) (handlers : HandlerMap) : Prop :=
  ∀ info handler, handlers info = some handler → handler.info = info ∧
    ∃ services, .handlerCreated index info services ∈ events ∧
      ∀ name, (services.lookup name).isSome → (handler.find name).isSome

section Step
variable {cfg : Config} {factories : Nat → Option Factories} {index fresh : Nat}
  {events : List Event}

theorem Cached.mono {handlers : HandlerMap} (cached : Cached index events handlers)
    (more : List Event) : Cached index (events ++ more) handlers := by
  intro info handler found
  obtain ⟨same, services, created, kept⟩ := cached info handler found
  exact ⟨same, services, List.mem_append_left _ created, kept⟩

theorem getHandler_cases (factories : Nat → Option Factories) (index fresh : Nat)
    (handlers : HandlerMap) (info : ConnectionInfo) :
    let got := getHandler factories index fresh handlers info
    (handlers info = some got.1 ∧ got.2.handlers = handlers ∧ got.2.events = []) ∨
      (handlers info = none ∧ got.1 = RequestHandler.new factories fresh info ∧
        got.2.handlers = Function.update handlers info (some got.1) ∧
        got.2.events = [.handlerCreated index info got.1.serviceMap]) := by
  unfold getHandler
  split
  · next handler found => exact .inl ⟨found, rfl, rfl⟩
  · next missing => exact .inr ⟨missing, rfl, rfl, rfl⟩

theorem getHandler_cached (factories : Nat → Option Factories) (fresh : Nat)
    {handlers : HandlerMap} (cached : Cached index events handlers)
    (info : ConnectionInfo) :
    let got := getHandler factories index fresh handlers info
    Cached index (events ++ got.2.events) got.2.handlers ∧ got.2.handlers info = some got.1 := by
  intro got
  rcases getHandler_cases factories index fresh handlers info with
    ⟨found, same, silent⟩ | ⟨_, new, added, created⟩
  · refine ⟨?_, by rw [same]; exact found⟩
    rw [same, silent, List.append_nil]
    exact cached
  · refine ⟨?_, by rw [added, Function.update_self]⟩
    rw [added, created]
    intro other handler found
    by_cases here : other = info
    · subst here
      rw [Function.update_self, Option.some.injEq] at found
      subst found
      refine ⟨?_, _, List.mem_append_right _ (List.mem_singleton_self _), fun name => id⟩
      rw [new, RequestHandler.new, createAndRegister_info]
    · rw [Function.update_of_ne here] at found
      exact cached.mono _ other handler found

theorem complete_handlers (worker : Worker) (eventId : UInt64) (outcome : Outcome) :
    (worker.complete index fresh eventId outcome).worker.handlers = worker.handlers := by
  unfold Worker.complete
  split <;> rfl

theorem exec_cached (cfg : Config) (factories : Nat → Option Factories) (fresh : Nat)
    {worker : Worker} (cached : Cached index events worker.handlers)
    (cmd : WorkerCmd) :
    Cached index (events ++ (worker.exec cfg factories index fresh cmd).events)
      (worker.exec cfg factories index fresh cmd).worker.handlers := by
  cases cmd with
  | runClosure | startRpc | quitWorker => exact cached.mono _
  | handleTimeout eventId =>
    simp only [Worker.exec, Worker.handleTimeout, complete_handlers]
    exact cached.mono _
  | handleData info header payload =>
    simp only [Worker.exec, Worker.handleData]
    split
    · exact cached.mono _
    · split
      · simp only [Worker.handleRequest]
        rw [← List.append_assoc]
        exact (getHandler_cached factories fresh cached info).1.mono _
      · split
        · simp only [Worker.handleResponse, complete_handlers]
          exact cached.mono _
        · exact cached.mono _
  | registerSvc info name svc =>
    simp only [Worker.exec, Worker.registerService]
    obtain ⟨kept, found⟩ := getHandler_cached factories fresh cached info
    rw [← List.append_assoc]
    refine Cached.mono (fun other handler here => ?_) _
    by_cases same : other = info
    · subst same
      rw [Function.update_self, Option.some.injEq] at here
      subst here
      obtain ⟨own, services, created, holds⟩ := kept other _ found
      refine ⟨by rw [registerService_info, own], services, created, fun name' present => ?_⟩
      rw [registerService_find]
      split
      · rfl
      · exact holds name' present
    · rw [Function.update_of_ne same] at here
      exact kept other handler here

theorem exec_created {worker : Worker} {cmd : WorkerCmd} {maker : Nat} {info : ConnectionInfo}
    {services : List (Bytes × Service)}
    (created : .handlerCreated maker info services ∈
      (worker.exec cfg factories index fresh cmd).events) :
    services = (RequestHandler.new factories fresh info).serviceMap := by
  have fromGet : ∀ target, .handlerCreated maker info services ∈
      (getHandler factories index fresh worker.handlers target).2.events →
        services = (RequestHandler.new factories fresh info).serviceMap := by
    intro target member
    rcases getHandler_cases factories index fresh worker.handlers target with
      ⟨_, _, silent⟩ | ⟨_, new, _, made⟩
    · rw [silent] at member
      cases member
    · rw [made, List.mem_singleton] at member
      cases member
      rw [new]
  have completing : ∀ eventId outcome, .handlerCreated maker info services ∉
      (worker.complete index fresh eventId outcome).events := by
    intro eventId outcome
    unfold Worker.complete
    split <;> simp
  cases cmd with
  | runClosure | startRpc | quitWorker => simp [Worker.exec, Worker.startRpc] at created
  | handleTimeout eventId => exact absurd created (completing _ _)
  | handleData target header payload =>
    simp only [Worker.exec, Worker.handleData] at created
    split at created
    · cases created
    · split at created
      · rcases List.mem_append.mp created with got | ran
        · exact fromGet _ got
        · unfold RequestHandler.handleRequest at ran
          split at ran
          · simp at ran
          · unfold dispatchRequest at ran
            split at ran
            · simp at ran
            · split at ran
              · simp at ran
              · split at ran <;> simp at ran
      · split at created
        · exact absurd created (completing _ _)
        · cases created
  | registerSvc target name svc =>
    rcases List.mem_append.mp created with got | removed
    · exact fromGet _ got
    · simp at removed

theorem exec_noSuchService {worker : Worker} (cached : Cached index events worker.handlers)
    {cmd : WorkerCmd} {info : ConnectionInfo} {eventId : UInt64} {name : Bytes}
    (refused : .noSuchService info eventId name ∈
      (worker.exec cfg factories index fresh cmd).events) :
    ∃ services, .handlerCreated index info services ∈
      events ++ (worker.exec cfg factories index fresh cmd).events ∧ services.lookup name = none := by
  have completing : ∀ id outcome, .noSuchService info eventId name ∉
      (worker.complete index fresh id outcome).events := by
    intro id outcome
    unfold Worker.complete
    split <;> simp
  have silent : ∀ target, .noSuchService info eventId name ∉
      (getHandler factories index fresh worker.handlers target).2.events := by
    intro target
    unfold getHandler
    split <;> simp
  cases cmd with
  | runClosure | startRpc | quitWorker => simp [Worker.exec, Worker.startRpc] at refused
  | handleTimeout id => exact absurd refused (completing _ _)
  | registerSvc target name' svc =>
    rcases List.mem_append.mp refused with got | removed
    · exact absurd got (silent _)
    · simp at removed
  | handleData target header payload =>
    simp only [Worker.exec, Worker.handleData] at refused ⊢
    split at refused
    · cases refused
    · next parsed readable =>
      split at refused
      · next request isRequest =>
        obtain ⟨kept, found⟩ := getHandler_cached factories fresh cached target
        obtain ⟨own, services, created, holds⟩ := kept target _ found
        simp only [Worker.handleRequest] at refused ⊢
        rcases List.mem_append.mp refused with got | ran
        · exact absurd got (silent _)
        · unfold RequestHandler.handleRequest at ran
          split at ran
          · next missing =>
            simp only [List.mem_singleton, Event.noSuchService.injEq] at ran
            obtain ⟨rfl, _, rfl⟩ := ran
            refine ⟨services, ?_, ?_⟩
            · rw [own, ← List.append_assoc]
              exact List.mem_append_left _ created
            · rw [← Option.not_isSome_iff_eq_none]
              intro present
              have kept := holds _ present
              rw [missing] at kept
              cases kept
          · simp only [List.mem_cons, reduceCtorEq, false_or] at ran
            unfold dispatchRequest at ran
            split at ran
            · cases ran
            · split at ran
              · cases ran
              · split at ran <;> simp at ran
      · split at refused
        · exact absurd refused (completing _ _)
        · cases refused

end Step

variable {cfg : Config} {process after : Process} {events emitted : List Event}
  {allowed : Process → Action → Prop}

theorem handlers_kept {action : Action} (move : Move cfg process action after emitted) {worker : Nat}
    (other : action ≠ .worker worker) :
    (after.workers worker).handlers = (process.workers worker).handlers := by
  cases move with
  | thread thread action after emitted running move => rw [(threadMove_frame move).2.1]
  | loopTop | timers | poll | finished | quiet | outOfRange | command | message | release
  | joinWorkers => rfl
  | flush output rest => exact (perform_workers (process.setOutbox rest) output worker).2.2.1
  | worker index =>
    have apart : worker ≠ index := fun same => other (by rw [same])
    exact congrArg Worker.handlers (Function.update_of_ne apart _ _)
  | joinBroker =>
    simp only
    split <;> rfl

theorem cached_of_run (run : Run (machine cfg) allowed events process) (worker : Nat) :
    Cached worker events (process.workers worker).handlers := by
  refine Steps.invariant
    (fun events process => Cached worker events (process.workers worker).handlers) ?_ ?_ run
  · intro info handler found
    cases found
  · intro events process action emitted after _ before _ fired
    by_cases own : action = .worker worker
    · subst own
      cases step_move fired with
      | worker index cmd rest legal running idle unread result same =>
        subst same
        have kept : Cached worker (events ++ [.popped worker cmd])
            { process.workers worker with queue := rest }.handlers := before.mono _
        have done := exec_cached cfg process.factories process.nextService kept cmd
        simpa using done
    · rw [handlers_kept (step_move fired) own]
      exact before.mono emitted

end Rpcz.HandlerCache
