import Rpcz.BindAtomicity
import Rpcz.Dispatching
import Rpcz.Forwarding
import Rpcz.ResponseSource

/-!
The services of a router whose factories are in place before its first message
and stay. Each connection of it offers exactly the names of the factory map, and
each name leads to an object of the class its factory creates.
-/

namespace Rpcz.BoundServices
open Automaton Message EventLog RequestHandlers WorkerThread ProcessModel Moves History RequestLog
  HandlerCache ConnectionHome BindAtomicity ResponseSource Forwarding Dispatching

def classOf : Factory → Nat
  | .singleton service => service.cls
  | .perConnection cls => cls

def offered (table : Factories) (name : Bytes) : Option Nat := (table.lookup name).map classOf

/-- The factories of a router are in place when a message is read from it, and
a step leaves them in place. -/
structure KeepsTable (cfg : Config) (routerIndex : Nat) (table : Factories) (process : Process)
    (action : Action) : Prop where
  ready : ∀ sender body, messageRead process action = some (.router routerIndex sender, body) →
    process.factories routerIndex = some table
  stays : process.factories routerIndex = some table → ∀ after emitted,
    process.step cfg action = some (after, emitted) → after.factories routerIndex = some table

def keepsTable (cfg : Config) (routerIndex : Nat) (table : Factories) (process : Process)
    (action : Action) : Bool :=
  (match messageRead process action with
    | some (info, _) => !(info.isRouter && info.index = routerIndex) ||
      process.factories routerIndex = some table
    | none => true) &&
  (process.factories routerIndex ≠ some table ||
    match process.step cfg action with
    | some (after, _) => after.factories routerIndex = some table
    | none => true)

theorem keepsTable_keeps {cfg : Config} {routerIndex : Nat} {table : Factories} {process : Process}
    {action : Action} (kept : keepsTable cfg routerIndex table process action = true) :
    KeepsTable cfg routerIndex table process action := by
  simp only [keepsTable, Bool.and_eq_true, Bool.or_eq_true, decide_eq_true_eq] at kept
  constructor
  · intro sender body read
    rw [read] at kept
    simpa [ConnectionInfo.router] using kept.1
  · intro found after emitted fired
    rw [fired] at kept
    simpa [found] using kept.2

/-- The requests of a connection meet the offered classes and no others. -/
structure Offers (classes : Bytes → Option Nat) (info : ConnectionInfo) (events : List Event) :
    Prop where
  missing : ∀ eventId name, .noSuchService info eventId name ∈ events → classes name = none
  found : ∀ eventId name svc method payload,
    .dispatched info eventId name svc method payload ∈ events → classes name = some svc.target.cls

theorem create_class (fresh : Nat) (factory : Factory) :
    (factory.create fresh).target.cls = classOf factory := by
  cases factory <;> rfl

theorem lookup_absent {table : Factories} {name : Bytes} (absent : name ∉ table.map Prod.fst) :
    table.lookup name = none := by
  induction table with
  | nil => rfl
  | cons entry rest ih =>
    rw [List.map_cons, List.mem_cons, not_or] at absent
    have different : (name == entry.1) = false := by simpa using absent.1
    rw [List.lookup_cons, different]
    exact ih absent.2

theorem lookup_present {table : Factories} {name : Bytes} {factory : Factory}
    (distinct : (table.map Prod.fst).Nodup) (member : (name, factory) ∈ table) :
    table.lookup name = some factory := by
  induction table with
  | nil => cases member
  | cons entry rest ih =>
    rw [List.map_cons, List.nodup_cons] at distinct
    rcases List.mem_cons.mp member with rfl | later
    · exact List.lookup_cons_self
    · have apart : name ≠ entry.1 := fun same =>
        distinct.1 (same ▸ List.mem_map_of_mem later)
      have different : (name == entry.1) = false := by simpa using apart
      rw [List.lookup_cons, different]
      exact ih distinct.2 later

theorem new_offers {factories : Nat → Option Factories} {routerIndex : Nat} {table : Factories}
    (found : factories routerIndex = some table) (distinct : (table.map Prod.fst).Nodup) (fresh : Nat)
    (sender name : Bytes) :
    ((RequestHandler.new factories fresh (.router routerIndex sender)).find name).map
      (fun svc => svc.target.cls) = offered table name := by
  have entries : RequestHandler.factoriesOf factories (.router routerIndex sender) = table := by
    simp [RequestHandler.factoriesOf, ConnectionInfo.router, found]
  unfold RequestHandler.new offered
  rw [entries]
  by_cases present : name ∈ table.map Prod.fst
  · obtain ⟨⟨key, factory⟩, member, rfl⟩ := List.mem_map.mp present
    obtain ⟨address, same⟩ := createAndRegister_find ⟨.router routerIndex sender, []⟩ fresh distinct member
    rw [same, lookup_present distinct member, Option.map_some, Option.map_some, create_class]
  · rw [createAndRegister_other _ _ present, lookup_absent present]
    rfl

def Stocked (classes : Bytes → Option Nat) (info : ConnectionInfo) (handlers : HandlerMap) : Prop :=
  ∀ handler, handlers info = some handler →
    ∀ name, (handler.find name).map (fun svc => svc.target.cls) = classes name

section Command
variable {factories : Nat → Option Factories} {index fresh : Nat} {classes : Bytes → Option Nat}
  {info : ConnectionInfo}

theorem getHandler_stocked {handlers : HandlerMap} (stocked : Stocked classes info handlers)
    (target : ConnectionInfo)
    (new : target = info → ∀ name, ((RequestHandler.new factories fresh info).find name).map
      (fun svc => svc.target.cls) = classes name) :
    Stocked classes info (getHandler factories index fresh handlers target).2.handlers := by
  rcases getHandler_cases factories index fresh handlers target with
    ⟨_, same, _⟩ | ⟨_, created, added, _⟩
  · rw [same]
    exact stocked
  · rw [added]
    intro handler held name
    by_cases here : target = info
    · subst here
      rw [Function.update_self, Option.some.injEq] at held
      rw [← held, created]
      exact new rfl name
    · rw [Function.update_of_ne (Ne.symm here)] at held
      exact stocked handler held name

theorem exec_stocked (cfg : Config) {worker : Worker} (stocked : Stocked classes info worker.handlers)
    {cmd : WorkerCmd} (unregistered : ∀ name svc, cmd ≠ .registerSvc info name svc)
    (new : ∀ header payload, cmd = .handleData info header payload →
      ∀ name, ((RequestHandler.new factories fresh info).find name).map
        (fun svc => svc.target.cls) = classes name) :
    Stocked classes info (worker.exec cfg factories index fresh cmd).worker.handlers := by
  cases cmd with
  | runClosure | startRpc | quitWorker => exact stocked
  | handleTimeout eventId =>
    simp only [Worker.exec, Worker.handleTimeout, complete_handlers]
    exact stocked
  | handleData target header payload =>
    simp only [Worker.exec, Worker.handleData]
    split
    · exact stocked
    · split
      · exact getHandler_stocked stocked target fun here => new header payload (by rw [here])
      · split
        · simp only [Worker.handleResponse, complete_handlers]
          exact stocked
        · exact stocked
  | registerSvc target name svc =>
    have apart : target ≠ info := by
      rintro rfl
      exact unregistered name svc rfl
    simp only [Worker.exec, Worker.registerService]
    intro handler held
    rw [Function.update_of_ne (Ne.symm apart)] at held
    exact getHandler_stocked stocked target (fun here => absurd here apart) handler held

end Command

section Run
variable {cfg : Config} {process after : Process} {events emitted : List Event}
  {allowed : Process → Action → Prop}

theorem maps_distinct (run : Run (machine cfg) allowed events process) (map : MapId) :
    ((process.factoryMaps map).map Prod.fst).Nodup := by
  refine Steps.invariant (fun _ process => ((process.factoryMaps map).map Prod.fst).Nodup)
    List.nodup_nil ?_ run
  intro events process action emitted after _ distinct _ fired
  cases step_move fired with
  | thread thread action after emitted running move =>
    cases move with
    | registerFactory factories name factory =>
      by_cases here : map = factories
      · subst here
        simpa using insertFactory_distinct name factory distinct
      · simpa [Function.update_of_ne here] using distinct
    | _ => exact distinct
  | flush output rest =>
    cases output with
    | push | reply => exact distinct
    | send =>
      simp only [Process.perform]
      split <;> exact distinct
  | _ => exact distinct

theorem factories_distinct (run : Run (machine cfg) allowed events process) {routerIndex : Nat}
    {table : Factories} (found : process.factories routerIndex = some table) :
    (table.map Prod.fst).Nodup := by
  obtain ⟨map, _, rfl⟩ := Option.map_eq_some_iff.mp found
  exact maps_distinct run map

variable {routerIndex : Nat} {table : Factories}
  (run : Run (machine cfg) (KeepsTable cfg routerIndex table) events process)
include run

theorem table_ready {sender header payload : Bytes}
    (arrived : .arrived (.router routerIndex sender) header payload ∈ events) :
    process.factories routerIndex = some table := by
  refine Steps.invariant (fun events process =>
    .arrived (.router routerIndex sender) header payload ∈ events →
      process.factories routerIndex = some table) (by simp) ?_ run arrived
  intro events process action emitted after earlier known keeps fired arrived
  rcases List.mem_append.mp arrived with old | new
  · exact keeps.stays (known old) after emitted fired
  · have read := mem_received.mpr new
    rw [received_step (BrokerSockets.sound_of_run earlier) (step_move fired)] at read
    obtain ⟨message, taken, content⟩ := Option.bind_eq_some_iff.mp (Option.mem_toList.mp read)
    split at content
    · next here =>
      obtain ⟨info, body⟩ := message
      simp only at here
      subst here
      exact keeps.stays (keeps.ready sender body taken) after emitted fired
    · cases content

theorem creating_ready {sender header payload : Bytes} {worker : Nat}
    (waiting : .handleData (.router routerIndex sender) header payload ∈ (process.workers worker).queue)
    (fresh : Nat) (name : Bytes) :
    ((RequestHandler.new process.factories fresh (.router routerIndex sender)).find name).map
      (fun svc => svc.target.cls) = offered table name := by
  have found := table_ready run (queue_caused run waiting).2
  exact new_offers found (factories_distinct run found) fresh sender name

theorem stocked_of_run {sender : Bytes} (worker : Nat)
    (unregistered : ∀ index name svc, .popped index (.registerSvc (.router routerIndex sender) name svc) ∉
      events) :
    Stocked (offered table) (.router routerIndex sender) (process.workers worker).handlers := by
  revert unregistered
  refine Steps.invariant (fun events process =>
    (∀ index name svc, .popped index (.registerSvc (.router routerIndex sender) name svc) ∉ events) →
      Stocked (offered table) (.router routerIndex sender) (process.workers worker).handlers) ?_ ?_ run
  · intro _ handler held
    cases held
  · intro events process action emitted after earlier known _ fired unregistered
    have stocked := known fun index name svc member =>
      unregistered index name svc (List.mem_append_left _ member)
    by_cases own : action = .worker worker
    · subst own
      cases step_move fired with
      | worker index cmd rest legal running idle unread result same =>
        subst same
        have before : Stocked (offered table) (.router routerIndex sender)
            { process.workers worker with queue := rest }.handlers := stocked
        have other : ∀ name svc, cmd ≠ .registerSvc (.router routerIndex sender) name svc := by
          rintro name svc rfl
          exact unregistered worker name svc (List.mem_append_right _ List.mem_cons_self)
        have kept : Stocked (offered table) (.router routerIndex sender)
            ({ process.workers worker with queue := rest }.exec cfg process.factories worker
              process.nextService cmd).worker.handlers := by
          apply exec_stocked cfg before other
          rintro header payload rfl
          exact creating_ready earlier (by rw [unread]; exact List.mem_cons_self) _
        simpa using kept
    · rw [handlers_kept (step_move fired) own]
      exact stocked

theorem offers_of_run {sender : Bytes}
    (unregistered : ∀ index name svc, .popped index (.registerSvc (.router routerIndex sender) name svc) ∉
      events) : Offers (offered table) (.router routerIndex sender) events := by
  constructor
  · intro eventId name refused
    obtain ⟨before, rest, rfl⟩ := List.append_of_mem refused
    obtain ⟨earlier, pre, post, later, state, action, after, stem, permitted, fired, left, _, right⟩ :=
      run.occurs
    have next := stem.next permitted fired
    obtain ⟨index, header, request, _, _, _, present, own, _⟩ :=
      handling_step stem fired (List.mem_append_right pre List.mem_cons_self) rfl
    have stocked := stocked_of_run next index fun index name svc member =>
      unregistered index name svc (by
        rw [left, right]
        simp only [List.mem_append, List.mem_cons] at member ⊢
        tauto)
    rcases mem_handling (own _ (List.mem_append_right pre List.mem_cons_self) rfl) with
      ⟨absent, same⟩ | ⟨_, _, same | ⟨_, _, _, _, _, same⟩⟩
    · simp only [Event.noSuchService.injEq] at same
      obtain ⟨target, rfl, rfl⟩ := same
      rw [← target] at present absent
      obtain ⟨handler, held⟩ := Option.isSome_iff_exists.mp present
      rw [← stocked handler held]
      simp only [lookup, held, Option.bind_some] at absent
      rw [absent]
      rfl
    · cases same
    · cases same
  · intro eventId name svc method payload dispatched
    obtain ⟨before, rest, rfl⟩ := List.append_of_mem dispatched
    obtain ⟨earlier, pre, post, later, state, action, after, stem, permitted, fired, left, _, right⟩ :=
      run.occurs
    have next := stem.next permitted fired
    have stocked := stocked_of_run next (cfg.getWorkerIndex (.router routerIndex sender))
      fun index name svc member => unregistered index name svc (by
        rw [left, right]
        simp only [List.mem_append, List.mem_cons] at member ⊢
        tauto)
    have found := lookup_dispatched stem fired (List.mem_append_right pre List.mem_cons_self)
    obtain ⟨handler, held, named⟩ := Option.bind_eq_some_iff.mp found
    rw [← stocked handler held name, named]
    rfl

end Run

end Rpcz.BoundServices
