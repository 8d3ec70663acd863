import Rpcz.BindAtomicity
import Rpcz.Completion
import Rpcz.Registration
import Rpcz.ServerBindings
import Rpcz.ShutdownWork

/-!
A singleton service is reached through the handlers of the workers and through the
factories of its server. `~server_impl` returns when the sockets of the server are
deleted, but the workers may still have requests from these sockets before them.
-/

namespace Rpcz.SingletonServices
open Automaton Message EventLog RequestHandlers WorkerThread BrokerThread ProcessModel Moves History
  BrokerSockets BlockingCalls BlockingReplies HandlerCache ConnectionHome Registration ServerBindings
  SocketUse BindAtomicity HeaderCodec

/-- `dispatch_request` of the service, called by one of its wrappers. -/
def Dispatches (service : ServiceObject) (event : Event) : Prop :=
  ∃ info eventId name wrapper method payload,
    event = .dispatched info eventId name (.mono wrapper service) method payload

/-- Nothing is dispatched to the service after the destructor of the server. -/
def UsedInLifetime (server : Nat) (service : ServiceObject) (events : List Event) : Prop :=
  ∀ before rest, events = before ++ .serverDestroyed server :: rest →
    ∀ event ∈ rest, ¬ Dispatches service event

/-- The service is registered on this server only, and the server is used by one
thread at a time and not after its destructor. -/
structure OwnServer (server : Nat) (service : ServiceObject) (process : Process)
    (action : Action) : Prop where
  lifetime : Lifetime process action
  registered : ∀ thread map name,
    action = .thread thread (.registerFactory map name (.singleton service)) → map = .server server
  alive : ∀ thread name factory,
    action = .thread thread (.registerFactory (.server server) name factory) →
      process.servers server ≠ .destroyed

/-- The worker would dispatch a request for the name on the connection to the
service, with the handler it has or with the one it would create. -/
def Reaches (process : Process) (service : ServiceObject) (worker : Nat) (info : ConnectionInfo)
    (name : Bytes) : Prop :=
  (∃ wrapper, lookup (process.workers worker) info name = some (.mono wrapper service)) ∨
    (process.workers worker).handlers info = none ∧
      (name, .singleton service) ∈ RequestHandler.factoriesOf process.factories info

/-- The commands in the queue of a worker, and those the broker has still to push to it. -/
def onTheWay (process : Process) (worker : Nat) : List WorkerCmd :=
  (process.workers worker).queue ++ outgoing worker process.broker.outbox

/-- Every request for the name comes after a registration that replaces its service. -/
def Superseded (cfg : Config) (info : ConnectionInfo) (name : Bytes)
    (commands : List WorkerCmd) : Prop :=
  ∀ before header payload rest, commands = before ++ .handleData info header payload :: rest →
    (requestOf cfg header).map Prod.snd = some name → ∃ svc, .registerSvc info name svc ∈ before

def SocketDeleted (broker : Broker) (info : ConnectionInfo) : Prop :=
  info.isRouter = true ∧
    ∃ socket, broker.routerSockets[info.index]? = some (some socket) ∧ broker.isClosed socket = true

/-- No connection that reaches the service receives any more, and no request for the
service is on its way to a worker. -/
def Retired (cfg : Config) (process : Process) (service : ServiceObject) : Prop :=
  ∀ worker info name, Reaches process service worker info name →
    SocketDeleted process.broker info ∧ Superseded cfg info name (onTheWay process worker)

/-- The destructor of the server returns only when the service is retired. -/
structure Retires (cfg : Config) (server : Nat) (service : ServiceObject) (process : Process)
    (action : Action) : Prop where
  own : OwnServer server service process action
  retired : ∀ thread, action = .thread thread .nextUnbind →
    process.calls thread = .destroying server [] → Retired cfg process service

section Superseding
variable {cfg : Config} {info : ConnectionInfo} {name : Bytes} {commands : List WorkerCmd}

theorem Superseded.append (superseded : Superseded cfg info name commands) {more : List WorkerCmd}
    (unread : ∀ header payload, .handleData info header payload ∉ more) :
    Superseded cfg info name (commands ++ more) := by
  intro before header payload rest split named
  rcases append_split split with ⟨kept, front, _⟩ | ⟨pre, _, back⟩
  · exact superseded before header payload kept front named
  · exact absurd (by rw [back]; simp) (unread header payload)

theorem Superseded.tail {cmd : WorkerCmd} (superseded : Superseded cfg info name (cmd :: commands))
    (other : ∀ svc, cmd ≠ .registerSvc info name svc) : Superseded cfg info name commands := by
  intro before header payload rest split named
  obtain ⟨svc, listed⟩ := superseded (cmd :: before) header payload rest (by rw [split]; rfl) named
  rcases List.mem_cons.mp listed with same | earlier
  · exact absurd same.symm (other svc)
  · exact ⟨svc, earlier⟩

theorem Superseded.head {header payload : Bytes}
    (superseded : Superseded cfg info name (.handleData info header payload :: commands)) :
    (requestOf cfg header).map Prod.snd ≠ some name := by
  intro named
  obtain ⟨svc, listed⟩ := superseded [] header payload commands rfl named
  cases listed

end Superseding

section Reaching
variable {cfg : Config} {factories : Nat → Option Factories} {index fresh : Nat}
  {service : ServiceObject} {name : Bytes} {wrapper : Nat}

theorem create_mono {factory : Factory} {address : Nat}
    (same : factory.create address = .mono wrapper service) : factory = .singleton service := by
  cases factory with
  | singleton object =>
    simp only [Factory.create, Service.mono.injEq] at same
    rw [same.2]
  | perConnection cls => cases same

theorem createAndRegister_origin (handler : RequestHandler) {registered : Factories}
    (fresh : Nat) {svc : Service}
    (found : (handler.createAndRegister fresh registered).find name = some svc) :
    handler.find name = some svc ∨
      ∃ address factory, (name, factory) ∈ registered ∧ factory.create address = svc := by
  induction registered generalizing handler fresh with
  | nil => exact .inl found
  | cons entry rest ih =>
    rcases ih _ _ found with before | ⟨address, factory, member, made⟩
    · rw [registerService_find] at before
      split at before
      · next here =>
        exact .inr ⟨fresh, entry.2, by rw [here]; exact List.mem_cons_self, Option.some.inj before⟩
      · exact .inl before
    · exact .inr ⟨address, factory, List.mem_cons_of_mem _ member, made⟩

theorem new_origin (info : ConnectionInfo)
    (found : (RequestHandler.new factories fresh info).find name = some (.mono wrapper service)) :
    (name, .singleton service) ∈ RequestHandler.factoriesOf factories info := by
  rcases createAndRegister_origin _ _ found with before | ⟨address, factory, member, made⟩
  · cases before
  · rw [← create_mono made]
    exact member

theorem getHandler_reaches {handlers : HandlerMap} (target info : ConnectionInfo)
    (found : ((getHandler factories index fresh handlers target).2.handlers info).bind
      (fun handler => handler.find name) = some (.mono wrapper service)) :
    (handlers info).bind (fun handler => handler.find name) = some (.mono wrapper service) ∨
      handlers info = none ∧
        (name, .singleton service) ∈ RequestHandler.factoriesOf factories info := by
  rcases getHandler_cases factories index fresh handlers target with
    ⟨_, same, _⟩ | ⟨missing, new, added, _⟩
  · rw [same] at found
    exact .inl found
  · rw [added] at found
    by_cases here : info = target
    · subst here
      rw [Function.update_self, new] at found
      exact .inr ⟨missing, new_origin info found⟩
    · rw [Function.update_of_ne here] at found
      exact .inl found

theorem exec_reaches (cfg : Config) (worker : Worker) (cmd : WorkerCmd) (info : ConnectionInfo)
    (found : lookup (worker.exec cfg factories index fresh cmd).worker info name =
      some (.mono wrapper service)) :
    lookup worker info name = some (.mono wrapper service) ∨
      worker.handlers info = none ∧
        (name, .singleton service) ∈ RequestHandler.factoriesOf factories info := by
  cases cmd with
  | runClosure | startRpc | quitWorker => exact .inl found
  | handleTimeout eventId =>
    simp only [lookup, Worker.exec, Worker.handleTimeout, complete_handlers] at found
    exact .inl found
  | handleData target header payload =>
    simp only [lookup, Worker.exec, Worker.handleData] at found
    split at found
    · exact .inl found
    · split at found
      · exact getHandler_reaches target info found
      · split at found
        · simp only [Worker.handleResponse, complete_handlers] at found
          exact .inl found
        · exact .inl found
  | registerSvc target registered svc =>
    simp only [lookup, Worker.exec, Worker.registerService] at found
    by_cases here : info = target
    · subst here
      rw [Function.update_self, Option.bind_some, registerService_find] at found
      split at found
      · cases found
      · have kept : ((getHandler factories index fresh worker.handlers info).2.handlers info).bind
            (fun handler => handler.find name) = some (.mono wrapper service) := by
          rcases getHandler_cases factories index fresh worker.handlers info with
            ⟨held, same, _⟩ | ⟨_, _, added, _⟩
          · rw [same, held]
            exact found
          · rw [added, Function.update_self]
            exact found
        exact getHandler_reaches info info kept
    · rw [Function.update_of_ne here] at found
      exact getHandler_reaches target info found

theorem exec_handled {events : List Event} (cfg : Config) {worker : Worker}
    (cached : Cached index events worker.handlers) (cmd : WorkerCmd) {info : ConnectionInfo}
    (missing : (worker.exec cfg factories index fresh cmd).worker.handlers info = none) :
    worker.handlers info = none := by
  rcases (exec_forConnection cfg factories fresh cached cmd info).creates with
    ⟨_, same⟩ | ⟨_, before, _⟩
  · rw [missing] at same
    simpa using same.symm
  · exact before

theorem dispatched_request {events : List Event} {worker : Worker}
    (cached : Cached index events worker.handlers) {cmd : WorkerCmd} {info : ConnectionInfo}
    {eventId : UInt64} {svc : Service} {method payload : Bytes}
    (dispatched : .dispatched info eventId name svc method payload ∈
      (worker.exec cfg factories index fresh cmd).events) :
    ∃ header data, cmd = .handleData info header data ∧
      requestOf cfg header = some (eventId, name) := by
  have listed : (eventId, name) ∈ served info (worker.exec cfg factories index fresh cmd).events :=
    List.mem_filterMap.mpr ⟨_, dispatched, by simp [ConnectionHome.service]⟩
  rw [(exec_forConnection cfg factories fresh cached cmd info).serves, Option.mem_toList] at listed
  obtain ⟨⟨header, data⟩, carried, request⟩ := Option.bind_eq_some_iff.mp listed
  cases cmd with
  | handleData target =>
    simp only [dataOf] at carried
    split at carried
    · next here =>
      cases carried
      exact ⟨header, data, by rw [here], request⟩
    · cases carried
  | _ => cases carried

end Reaching

variable {cfg : Config} {process after : Process} {events emitted : List Event}
  {allowed : Process → Action → Prop}

theorem onTheWay_step (run : Run (machine cfg) allowed events process) {action : Action}
    (permitted : allowed process action)
    (fired : (machine cfg).step process action = some (after, emitted)) (worker : Nat) :
    onTheWay process worker ++ queuedFor worker emitted =
      processed worker emitted ++ onTheWay after worker := by
  have before := delivered_of_run run worker
  have later := delivered_of_run (run.next permitted fired) worker
  rw [queuedFor_append, processed_append, before] at later
  simpa [onTheWay] using later

theorem arrived_open {action : Action} (move : Move cfg process action after emitted)
    {info : ConnectionInfo} {header payload : Bytes}
    (member : .arrived info header payload ∈ emitted) : ¬ SocketDeleted process.broker info := by
  rintro ⟨router, socket, listed, closed⟩
  obtain ⟨_, frames, rfl⟩ := arrived_move move member
  have quiet : ∀ outbox, .arrived info header payload ∉ queuedEvents outbox := by
    intro outbox inside
    simpa [origin] using queuedEvents_origin _ inside
  cases move with
  | finished | quiet => cases member
  | outOfRange => simp at member
  | message i callback frames phase performed slot network nonempty result same =>
    subst same
    have inside := (List.mem_append.mp member).resolve_right (quiet _)
    have target : ∀ (broker : Broker) source data,
        .arrived info header payload ∈ (broker.handleSocket cfg source data).2 → info = source := by
      intro broker source data reported
      unfold Broker.handleSocket at reported
      split at reported
      · simp only [List.mem_singleton, Event.arrived.injEq] at reported
        exact reported.1
      · cases reported
    cases callback with
    | frontend => exact network rfl
    | dealer index =>
      simp only [Broker.receive] at inside
      split at inside
      · simp [Broker.fault] at inside
      · split at inside
        · simp [Broker.fault] at inside
        · rw [target _ _ _ inside] at router
          cases router
    | router index =>
      simp only [Broker.receive] at inside
      split at inside
      · simp [Broker.fault] at inside
      · next found =>
        split at inside
        · simp [Broker.fault] at inside
        · next unclosed =>
          unfold Broker.handleRouterSocket at inside
          split at inside
          · rw [target _ _ _ inside] at listed
            simp only [ConnectionInfo.router] at listed
            simp only [Broker.socketOf, ConnectionInfo.router, if_true, listed, Option.join_some,
              Option.some.injEq] at found
            subst found
            exact unclosed closed
          · cases inside

theorem socketDeleted_step (run : Run (machine cfg) allowed events process) {action : Action}
    (permitted : allowed process action)
    (fired : (machine cfg).step process action = some (after, emitted)) {info : ConnectionInfo}
    (deleted : SocketDeleted process.broker info) : SocketDeleted after.broker info := by
  obtain ⟨router, socket, listed, closed⟩ := deleted
  refine ⟨router, socket, routers_grow run (.single permitted fired) listed, ?_⟩
  rcases closed_step (sound_of_run run) (step_move fired) with
    ⟨same, _⟩ | ⟨_, _, _, _, removed, same, _⟩
  · simpa [Broker.isClosed, same] using closed
  · simp only [Broker.isClosed, same, List.any_append, Bool.or_eq_true]
    exact .inl closed

theorem queued_open {action : Action} (move : Move cfg process action after emitted) {worker : Nat}
    {info : ConnectionInfo} {header payload : Bytes}
    (listed : .handleData info header payload ∈ queuedFor worker emitted) :
    ¬ SocketDeleted process.broker info := by
  have queued : (worker, .handleData info header payload) ∈ queuedData emitted :=
    List.mem_filterMap.mpr ⟨_, mem_queuedFor.mp listed, rfl⟩
  rw [delivered_step move] at queued
  obtain ⟨event, reported, shown⟩ := List.mem_filterMap.mp queued
  cases event with
  | arrived source header' payload' =>
    simp only [Option.some.injEq, Prod.mk.injEq, WorkerCmd.handleData.injEq] at shown
    obtain ⟨_, rfl, rfl, rfl⟩ := shown
    exact arrived_open move reported
  | _ => cases shown

theorem processed_worker {action : Action} (move : Move cfg process action after emitted)
    (worker : Nat) : processed worker emitted = [] ∨
      ∃ cmd rest result, action = .worker worker ∧
        (process.workers worker).queue = cmd :: rest ∧ processed worker emitted = [cmd] ∧
        { process.workers worker with queue := rest }.exec cfg process.factories worker
          process.nextService cmd = result ∧ after.workers worker = result.worker ∧
        emitted = .popped worker cmd :: result.events := by
  by_cases empty : processed worker emitted = []
  · exact .inl empty
  · obtain ⟨cmd, taken⟩ := List.exists_mem_of_ne_nil _ empty
    have popped := Completion.mem_processed.mp taken
    obtain ⟨index, first, rest, result, rfl, unread, same, moved, report⟩ :=
      worker_move move popped (.inl rfl)
    have silent : ∀ event ∈ result.events, origin event = .worker :=
      same ▸ exec_origin _ _ _ _ _ _
    rw [report] at popped
    rcases List.mem_cons.mp popped with here | later
    · cases here
      have alone := processed_other worker (fun event member => by rw [silent event member]; decide)
      refine .inr ⟨cmd, rest, result, rfl, unread, ?_, same, ?_, report⟩
      · rw [report, ← List.singleton_append, processed_append, alone]
        simp [processed]
      · rw [moved]
        exact Function.update_self ..
    · simpa [origin] using silent _ later

/-! ## The server -/

theorem mem_insertFactory {factories : Factories} {name other : Bytes} {factory entry : Factory}
    (member : (other, entry) ∈ insertFactory factories name factory) :
    (other = name ∧ entry = factory) ∨ (other, entry) ∈ factories := by
  rcases List.mem_cons.mp member with same | kept
  · exact .inl (Prod.mk.inj same)
  · exact .inr (List.mem_of_mem_filter kept)

/-- No thread is inside a bind of the server while another destroys it, and only the
map of the server leads to the service. -/
structure Owned (server : Nat) (service : ServiceObject) (process : Process) : Prop where
  apart : ∀ thread other, Destroys process thread server → ¬ Binds process other server
  here : ∀ map name, (name, .singleton service) ∈ process.factoryMaps map → map = .server server

structure Ended (server : Nat) (process : Process) : Prop where
  destroyed : process.servers server = .destroyed
  unbound : ∀ thread, ¬ Binds process thread server

theorem binds_step {actor thread : Thread} {action : ThreadAction} {server : Nat}
    (move : ThreadMove cfg process actor action after emitted) (binds : Binds after thread server) :
    Binds process thread server ∨ thread = actor ∧
      (∃ endpoint, action = .serverBind server endpoint) ∧
        process.servers server ≠ .destroyed := by
  by_cases here : thread = actor
  · subst here
    cases move with
    | serverBind other endpoint endpoints idle alive unbound =>
      simp only [Binds, Process.startBind, Process.setCall, Function.update_self, Call.binding.injEq,
        MapId.server.injEq, reduceCtorEq, exists_false, or_false] at binds
      subst binds
      exact .inr ⟨rfl, ⟨endpoint, rfl⟩, by simp [alive]⟩
    | bound factories index rest inside answer =>
      simp only [Binds, Process.setCall, Function.update_self, reduceCtorEq, Call.inserting.injEq,
        exists_and_right, exists_eq', true_and, false_or] at binds
      exact .inl (.inl (by rw [inside, binds]))
    | alreadyBound | add | registerService | reply | newServer | registerFactory => exact .inl binds
    | _ => simp [Binds, Process.startBind, Process.setCall] at binds
  · rw [Binds, (threadMove_other here move).1] at binds
    exact .inl binds

theorem destroys_step {actor thread : Thread} {action : ThreadAction} {server : Nat}
    (move : ThreadMove cfg process actor action after emitted)
    (destroys : Destroys after thread server) :
    Destroys process thread server ∨ thread = actor ∧ action = .destroyServer server := by
  by_cases here : thread = actor
  · subst here
    cases move with
    | destroyServer other endpoints idle alive =>
      simp only [Destroys, Process.setCall, Function.update_self, Call.destroying.injEq,
        reduceCtorEq, or_false] at destroys
      obtain ⟨_, rfl, _⟩ := destroys
      exact .inr ⟨rfl, rfl⟩
    | nextUnbind other endpoint remaining inside =>
      simp only [Destroys, Process.setCall, Function.update_self, reduceCtorEq, Call.unbinding.injEq,
        Option.some.injEq, Prod.mk.injEq, false_or] at destroys
      obtain ⟨_, rfl, _⟩ := destroys
      exact .inl ⟨_, .inl inside⟩
    | unboundNext other remaining rest inside answer =>
      simp only [Destroys, Process.setCall, Function.update_self, reduceCtorEq,
        Call.destroying.injEq, or_false] at destroys
      obtain ⟨_, rfl, _⟩ := destroys
      exact .inl ⟨_, .inr inside⟩
    | alreadyBound | add | registerService | reply | newServer | registerFactory =>
      exact .inl destroys
    | _ => simp [Destroys, Process.startBind, Process.setCall] at destroys
  · rw [Destroys, (threadMove_other here move).1] at destroys
    exact .inl destroys

theorem owned_of_run {server : Nat} {service : ServiceObject}
    (owned : ∀ process action, allowed process action → OwnServer server service process action)
    (run : Run (machine cfg) allowed events process) : Owned server service process := by
  refine Steps.invariant (fun _ process => Owned server service process) ?_ ?_ run
  · refine ⟨fun thread other destroys => ?_, fun map name member => ?_⟩
    · obtain ⟨remaining, inside | inside⟩ := destroys <;> cases inside
    · cases member
  · intro events process action emitted after earlier before permitted fired
    have own := owned _ _ permitted
    by_cases threaded : ∃ thread step, action = .thread thread step
    · obtain ⟨actor, step, rfl⟩ := threaded
      cases step_move fired with
      | thread _ _ _ _ running move =>
        refine ⟨fun thread other destroys binds => ?_, fun map name member => ?_⟩
        · rcases destroys_step move destroys with old | ⟨rfl, rfl⟩
          · rcases binds_step move binds with bound | ⟨rfl, ⟨endpoint, rfl⟩, _⟩
            · exact before.apart thread other old bound
            · exact own.lifetime.1 other server endpoint rfl thread old
          · rcases binds_step move binds with bound | ⟨_, ⟨endpoint, same⟩, _⟩
            · exact (own.lifetime.2 thread server rfl other).2 bound
            · cases same
        · cases threadMove_bind move with
          | aside _ _ maps | starts _ _ _ _ maps | answered _ _ _ _ _ maps | inserts _ _ _ _ maps =>
            rw [maps] at member
            exact before.here map name member
          | registers changed registered factory asked _ maps =>
            subst asked
            rw [maps] at member
            by_cases same : map = changed
            · subst same
              rw [Function.update_self] at member
              rcases mem_insertFactory member with ⟨_, rfl⟩ | old
              · exact own.registered actor map registered rfl
              · exact before.here map name old
            · rw [Function.update_of_ne same] at member
              exact before.here map name member
    · have apart : ∀ thread step, action ≠ .thread thread step :=
        fun thread step same => threaded ⟨thread, step, same⟩
      obtain ⟨calls, maps, _⟩ := move_aside (step_move fired) apart
      refine ⟨fun thread other => ?_, fun map name => ?_⟩
      · simpa only [Destroys, Binds, calls] using before.apart thread other
      · rw [maps]
        exact before.here map name

theorem ended_step {server : Nat} {action : Action}
    (ended : Ended server process) (move : Move cfg process action after emitted) :
    Ended server after := by
  by_cases threaded : ∃ thread step, action = .thread thread step
  · obtain ⟨actor, step, rfl⟩ := threaded
    cases move with
    | thread _ _ _ _ running move =>
      refine ⟨?_, fun thread binds => ?_⟩
      · have destroyed := ended.destroyed
        cases move with
        | serverBind other _ _ _ alive =>
          have differs : server ≠ other := fun same => by
            rw [← same, destroyed] at alive
            cases alive
          simpa [Process.startBind, Process.setCall, Process.write,
            Function.update_of_ne differs] using destroyed
        | newServer other _ absent =>
          have differs : server ≠ other := fun same => by
            rw [← same, destroyed] at absent
            cases absent
          simpa [Function.update_of_ne differs] using destroyed
        | serverDestroyed other inside =>
          by_cases same : server = other
          · rw [same]
            exact Function.update_self ..
          · simpa [Function.update_of_ne same] using destroyed
        | _ => exact destroyed
      · rcases binds_step move binds with bound | ⟨_, _, alive⟩
        · exact ended.unbound thread bound
        · exact alive ended.destroyed
  · have apart : ∀ thread step, action ≠ .thread thread step :=
      fun thread step same => threaded ⟨thread, step, same⟩
    obtain ⟨calls, servers, _⟩ := servers_aside move apart
    exact ⟨by rw [servers]; exact ended.destroyed, fun thread => by
      simpa only [Binds, calls] using ended.unbound thread⟩

theorem mem_factoriesOf {info : ConnectionInfo} {entry : Bytes × Factory} :
    entry ∈ RequestHandler.factoriesOf process.factories info ↔ info.isRouter = true ∧
      ∃ map, process.routerFactories info.index = some map ∧ entry ∈ process.factoryMaps map := by
  unfold RequestHandler.factoriesOf Process.factories
  cases info.isRouter with
  | false => simp
  | true => cases process.routerFactories info.index <;> simp

theorem factories_back {server : Nat} {service : ServiceObject} {action : Action}
    (own : OwnServer server service process action) (owned : Owned server service process)
    (ended : Ended server process) (move : Move cfg process action after emitted)
    {info : ConnectionInfo} {name : Bytes}
    (member : (name, .singleton service) ∈ RequestHandler.factoriesOf after.factories info) :
    (name, .singleton service) ∈ RequestHandler.factoriesOf process.factories info := by
  by_cases threaded : ∃ thread step, action = .thread thread step
  · obtain ⟨actor, step, rfl⟩ := threaded
    cases move with
    | thread _ _ _ _ running move =>
      cases threadMove_bind move with
      | aside _ _ maps routers | starts _ _ _ _ maps routers | answered _ _ _ _ _ maps routers =>
        rwa [mem_factoriesOf, maps, routers, ← mem_factoriesOf] at member
      | inserts map index inside _ maps routers =>
        rw [mem_factoriesOf, maps, routers] at member
        obtain ⟨router, found, named, listed⟩ := member
        by_cases here : info.index = index
        · rw [here, Function.update_self, Option.some.injEq] at named
          subst named
          rw [owned.here map name listed] at inside
          exact absurd (.inr ⟨index, inside⟩) (ended.unbound actor)
        · rw [Function.update_of_ne here] at named
          exact mem_factoriesOf.mpr ⟨router, found, named, listed⟩
      | registers changed registered factory asked _ maps routers =>
        subst asked
        rw [mem_factoriesOf, maps, routers] at member
        obtain ⟨router, found, named, listed⟩ := member
        refine mem_factoriesOf.mpr ⟨router, found, named, ?_⟩
        by_cases same : found = changed
        · subst same
          rw [Function.update_self] at listed
          rcases mem_insertFactory listed with ⟨_, rfl⟩ | old
          · have map := own.registered actor found registered rfl
            subst map
            exact absurd ended.destroyed (own.alive actor registered _ rfl)
          · exact old
        · rw [Function.update_of_ne same] at listed
          exact listed
  · have apart : ∀ thread step, action ≠ .thread thread step :=
      fun thread step same => threaded ⟨thread, step, same⟩
    obtain ⟨_, maps, routers, _⟩ := move_aside move apart
    rwa [mem_factoriesOf, maps, routers, ← mem_factoriesOf] at member

/-! ## After the destructor -/

section Later
variable {server : Nat} {service : ServiceObject} {action : Action}

theorem reaches_step (run : Run (machine cfg) allowed events process)
    (own : OwnServer server service process action) (owned : Owned server service process)
    (ended : Ended server process)
    (fired : (machine cfg).step process action = some (after, emitted)) {worker : Nat}
    {info : ConnectionInfo} {name : Bytes} (reaches : Reaches after service worker info name) :
    Reaches process service worker info name := by
  by_cases mine : action = .worker worker
  · subst mine
    cases step_move fired with
    | worker _ cmd rest legal running idle unread result same =>
      have cached : Cached worker events { process.workers worker with queue := rest }.handlers :=
        cached_of_run run worker
      subst same
      rcases reaches with ⟨wrapper, found⟩ | ⟨missing, member⟩
      · rcases exec_reaches cfg _ cmd info (by simpa using found) with before | ⟨none, member⟩
        · exact .inl ⟨wrapper, before⟩
        · exact .inr ⟨none, member⟩
      · exact .inr ⟨exec_handled cfg cached cmd (by simpa using missing), member⟩
  · have kept := handlers_kept (step_move fired) mine
    rcases reaches with ⟨wrapper, found⟩ | ⟨missing, member⟩
    · exact .inl ⟨wrapper, by unfold lookup at found ⊢; rwa [kept] at found⟩
    · exact .inr ⟨by rw [← kept]; exact missing,
        factories_back own owned ended (step_move fired) member⟩

theorem retired_step (run : Run (machine cfg) allowed events process)
    (permitted : allowed process action) (own : OwnServer server service process action)
    (owned : Owned server service process) (ended : Ended server process)
    (retired : Retired cfg process service)
    (fired : (machine cfg).step process action = some (after, emitted)) :
    Retired cfg after service := by
  intro worker info name reaches
  obtain ⟨deleted, superseded⟩ := retired worker info name (reaches_step run own owned ended fired reaches)
  refine ⟨socketDeleted_step run permitted fired deleted, ?_⟩
  have moves := onTheWay_step run permitted fired worker
  have grown : Superseded cfg info name (onTheWay process worker ++ queuedFor worker emitted) :=
    superseded.append (fun header payload listed => queued_open (step_move fired) listed deleted)
  rcases processed_worker (step_move fired) worker with
    none | ⟨cmd, rest, result, _, _, took, ran, now, _⟩
  · rw [none, List.nil_append] at moves
    rw [← moves]
    exact grown
  · rw [took, List.singleton_append] at moves
    rw [moves] at grown
    refine grown.tail (fun svc same => ?_)
    subst same
    have replaced := exec_registers cfg process.factories worker process.nextService
      { process.workers worker with queue := rest } info name svc
    rw [ran, ← now] at replaced
    rcases reaches with ⟨wrapper, found⟩ | ⟨missing, _⟩
    · rw [replaced] at found
      cases found
    · rw [lookup, missing] at replaced
      cases replaced

theorem undispatched_step (run : Run (machine cfg) allowed events process)
    (retired : Retired cfg process service)
    (fired : (machine cfg).step process action = some (after, emitted)) {event : Event}
    (reported : event ∈ emitted) : ¬ Dispatches service event := by
  rintro ⟨info, eventId, name, wrapper, method, payload, rfl⟩
  obtain ⟨index, cmd, rest, result, _, unread, same, _, report⟩ :=
    worker_move (step_move fired) reported (.inr (by simp [origin]))
  have inside : .dispatched info eventId name (.mono wrapper service) method payload ∈
      result.events := by
    rw [report] at reported
    simpa using reported
  have cached : Cached index events { process.workers index with queue := rest }.handlers :=
    cached_of_run run index
  rw [← same] at inside
  obtain ⟨header, data, rfl, request⟩ := dispatched_request cached inside
  have reaches : Reaches process service index info name := by
    rcases exec_reaches cfg _ _ info (exec_dispatched cached inside).2 with before | new
    · exact .inl ⟨wrapper, before⟩
    · exact .inr new
  have superseded := (retired index info name reaches).2
  rw [onTheWay, unread, List.cons_append] at superseded
  exact superseded.head (by rw [request]; rfl)

theorem destroyed_move (move : Move cfg process action after emitted)
    (member : .serverDestroyed server ∈ emitted) :
    ∃ thread, action = .thread thread .nextUnbind ∧
      process.calls thread = .destroying server [] ∧ emitted = [.serverDestroyed server] ∧
      after = { process.setCall thread .idle with
        servers := Function.update process.servers server .destroyed } := by
  by_cases threaded : ∃ thread step, action = .thread thread step
  · obtain ⟨actor, step, rfl⟩ := threaded
    cases move with
    | thread _ _ _ _ running move =>
      cases move with
      | serverDestroyed other inside =>
        cases List.mem_singleton.mp member
        exact ⟨actor, rfl, inside, rfl, rfl⟩
      | bind | serverBind => simp [Process.startBind] at member
      | _ => simp at member
  · have apart : ∀ thread step, action ≠ .thread thread step :=
      fun thread step same => threaded ⟨thread, step, same⟩
    exact absurd rfl ((move_aside move apart).2.2.2 _ member)

theorem retired_of_run (run : Run (machine cfg) (Retires cfg server service) events process) :
    UsedInLifetime server service events ∧
      (.serverDestroyed server ∈ events → Ended server process ∧ Retired cfg process service) := by
  refine Steps.invariant (fun events process => UsedInLifetime server service events ∧
    (.serverDestroyed server ∈ events → Ended server process ∧ Retired cfg process service))
    ?_ ?_ run
  · exact ⟨fun before rest split => by simp at split, fun member => by cases member⟩
  · intro events process action emitted after earlier ih permitted fired
    have owned := owned_of_run (fun _ _ met => met.own) earlier
    obtain ⟨used, later⟩ := ih
    by_cases finished : .serverDestroyed server ∈ events
    · obtain ⟨ended, retired⟩ := later finished
      refine ⟨fun before rest split event member => ?_, fun _ =>
        ⟨ended_step ended (step_move fired),
          retired_step earlier permitted permitted.own owned ended retired fired⟩⟩
      rcases append_split split with ⟨kept, front, rfl⟩ | ⟨pre, _, back⟩
      · rcases List.mem_append.mp member with old | new
        · exact used before kept front event old
        · exact undispatched_step earlier retired fired new
      · exact undispatched_step earlier retired fired (by rw [back]; simp [member])
    · refine ⟨fun before rest split event member => ?_, fun reported => ?_⟩
      · rcases append_split split with ⟨kept, front, _⟩ | ⟨pre, _, back⟩
        · exact absurd (by rw [front]; simp) finished
        · have closes : .serverDestroyed server ∈ emitted := by rw [back]; simp
          obtain ⟨_, _, _, only, _⟩ := destroyed_move (step_move fired) closes
          rw [only] at back
          cases pre with
          | nil =>
            simp only [List.nil_append, List.cons.injEq] at back
            rw [← back.2] at member
            cases member
          | cons head tail => simp at back
      · obtain ⟨thread, rfl, inside, _, rfl⟩ := destroyed_move (step_move fired)
          ((List.mem_append.mp reported).resolve_left finished)
        have retired := permitted.retired thread rfl inside
        refine ⟨⟨Function.update_self .., fun other binds => ?_⟩, retired⟩
        by_cases here : other = thread
        · subst here
          simp [Binds, Process.setCall] at binds
        · refine owned.apart thread other ⟨[], .inl inside⟩ ?_
          simpa [Binds, Process.setCall, Function.update_of_ne here] using binds

end Later

/-! ## Requests that the destructor leaves behind -/

/-- A worker between two commands has a request for the service in its queue, with no
registration before it that replaces the service. -/
def Awaits (cfg : Config) (process : Process) (service : ServiceObject) : Prop :=
  ∃ worker info name before header payload rest, worker < cfg.workers ∧
    process.calls (.worker worker) = .idle ∧ Reaches process service worker info name ∧
    (process.workers worker).queue = before ++ .handleData info header payload :: rest ∧
    (requestOf cfg header).map Prod.snd = some name ∧ ∀ svc, .registerSvc info name svc ∉ before

section Forward
variable {factories : Nat → Option Factories} {index fresh : Nat} {service : ServiceObject}
  {name : Bytes}

theorem getHandler_finds {handlers : HandlerMap} {info : ConnectionInfo}
    (distinct : ((RequestHandler.factoriesOf factories info).map Prod.fst).Nodup)
    (missing : handlers info = none)
    (member : (name, .singleton service) ∈ RequestHandler.factoriesOf factories info) :
    ∃ wrapper, (getHandler factories index fresh handlers info).1.find name =
      some (.mono wrapper service) := by
  rcases getHandler_cases factories index fresh handlers info with ⟨held, _⟩ | ⟨_, new, _⟩
  · rw [missing] at held
    cases held
  · rw [new]
    exact createAndRegister_find _ _ distinct member

theorem getHandler_keeps_reach {handlers : HandlerMap} (target : ConnectionInfo)
    {info : ConnectionInfo}
    (distinct : ((RequestHandler.factoriesOf factories info).map Prod.fst).Nodup)
    (missing : handlers info = none)
    (member : (name, .singleton service) ∈ RequestHandler.factoriesOf factories info) :
    (getHandler factories index fresh handlers target).2.handlers info = none ∨
      ∃ wrapper, ((getHandler factories index fresh handlers target).2.handlers info).bind
        (fun handler => handler.find name) = some (.mono wrapper service) := by
  rcases getHandler_cases factories index fresh handlers target with
    ⟨_, same, _⟩ | ⟨_, _, added, _⟩
  · rw [same]
    exact .inl missing
  · rw [added]
    by_cases here : info = target
    · subst here
      rw [Function.update_self]
      exact .inr (getHandler_finds distinct missing member)
    · rw [Function.update_of_ne here]
      exact .inl missing

theorem exec_keeps_reach (cfg : Config) {worker : Worker} {cmd : WorkerCmd} {info : ConnectionInfo}
    (distinct : ((RequestHandler.factoriesOf factories info).map Prod.fst).Nodup)
    (other : ∀ svc, cmd ≠ .registerSvc info name svc)
    (missing : worker.handlers info = none)
    (member : (name, .singleton service) ∈ RequestHandler.factoriesOf factories info) :
    (worker.exec cfg factories index fresh cmd).worker.handlers info = none ∨
      ∃ wrapper, lookup (worker.exec cfg factories index fresh cmd).worker info name =
        some (.mono wrapper service) := by
  cases cmd with
  | runClosure | startRpc | quitWorker => exact .inl missing
  | handleTimeout eventId =>
    simp only [Worker.exec, Worker.handleTimeout, complete_handlers]
    exact .inl missing
  | handleData target header payload =>
    simp only [lookup, Worker.exec, Worker.handleData]
    split
    · exact .inl missing
    · split
      · exact getHandler_keeps_reach target distinct missing member
      · split
        · simp only [Worker.handleResponse, complete_handlers]
          exact .inl missing
        · exact .inl missing
  | registerSvc target registered svc =>
    simp only [lookup, Worker.exec, Worker.registerService]
    by_cases here : info = target
    · subst here
      have apart : name ≠ registered := fun same => other svc (by rw [same])
      rw [Function.update_self, Option.bind_some, registerService_find, if_neg apart]
      exact .inr (getHandler_finds distinct missing member)
    · rw [Function.update_of_ne here]
      exact getHandler_keeps_reach target distinct missing member

theorem exec_reaches_dispatch {events : List Event} {worker : Worker}
    (cached : Cached index events worker.handlers) {info : ConnectionInfo}
    (distinct : ((RequestHandler.factoriesOf factories info).map Prod.fst).Nodup)
    {header : Bytes} (payload : Bytes) (asks : (requestOf cfg header).map Prod.snd = some name)
    (reaches : (∃ wrapper, lookup worker info name = some (.mono wrapper service)) ∨
      worker.handlers info = none ∧
        (name, .singleton service) ∈ RequestHandler.factoriesOf factories info) :
    ∃ event ∈ (worker.exec cfg factories index fresh (.handleData info header payload)).events,
      Dispatches service event := by
  obtain ⟨⟨eventId, asked⟩, request, rfl⟩ := Option.map_eq_some_iff.mp asks
  obtain ⟨kept, present⟩ := getHandler_cached factories fresh cached info
  have own := (kept info _ present).1
  obtain ⟨wrapper, found⟩ : ∃ wrapper,
      (getHandler factories index fresh worker.handlers info).1.find asked =
        some (.mono wrapper service) := by
    rcases reaches with ⟨wrapper, found⟩ | ⟨missing, member⟩
    · obtain ⟨handler, held, finds⟩ := Option.bind_eq_some_iff.mp found
      refine ⟨wrapper, ?_⟩
      unfold getHandler
      rw [held]
      exact finds
    · exact getHandler_finds distinct missing member
  cases readable : cfg.proto.parseHeader header with
  | none => simp [requestOf, readable] at request
  | some parsed =>
    cases asking : parsed.reqHdr with
    | none => simp [requestOf, readable, asking] at request
    | some header =>
      simp only [requestOf, readable, asking, Option.bind_some, Option.map_some, Option.some.injEq,
        Prod.mk.injEq] at request
      obtain ⟨rfl, rfl⟩ := request
      refine ⟨.dispatched info header.getEventId header.getService (.mono wrapper service)
        header.getMethod payload, ?_, _, _, _, _, _, _, rfl⟩
      simp only [Worker.exec, Worker.handleData, readable, asking, Worker.handleRequest,
        RequestHandler.handleRequest, found, own]
      simp

end Forward

theorem distinct_of_run (run : Run (machine cfg) allowed events process) (info : ConnectionInfo) :
    ((RequestHandler.factoriesOf process.factories info).map Prod.fst).Nodup := by
  have maps : ∀ map, ((process.factoryMaps map).map Prod.fst).Nodup := by
    refine Steps.invariant (fun _ process => ∀ map, ((process.factoryMaps map).map Prod.fst).Nodup)
      (fun map => List.nodup_nil) ?_ run
    intro events process action emitted after _ before _ fired map
    by_cases threaded : ∃ thread step, action = .thread thread step
    · obtain ⟨actor, step, rfl⟩ := threaded
      cases step_move fired with
      | thread _ _ _ _ running move =>
        cases threadMove_bind move with
        | aside _ _ maps | starts _ _ _ _ maps | answered _ _ _ _ _ maps | inserts _ _ _ _ maps =>
          rw [maps]
          exact before map
        | registers changed name factory _ _ maps =>
          rw [maps]
          by_cases same : map = changed
          · subst same
            rw [Function.update_self]
            exact insertFactory_distinct name factory (before map)
          · rw [Function.update_of_ne same]
            exact before map
    · rw [(move_aside (step_move fired) (fun thread step same => threaded ⟨thread, step, same⟩)).2.1]
      exact before map
  unfold RequestHandler.factoriesOf Process.factories
  split
  · cases process.routerFactories info.index with
    | none => exact List.nodup_nil
    | some map => exact maps map
  · exact List.nodup_nil

theorem worker_fires {worker : Nat} {cmd : WorkerCmd} {rest : List WorkerCmd}
    (legal : worker < cfg.workers) (running : (process.workers worker).running = true)
    (idle : process.calls (.worker worker) = .idle)
    (unread : (process.workers worker).queue = cmd :: rest) {result : Result}
    (ran : { process.workers worker with queue := rest }.exec cfg process.factories worker
      process.nextService cmd = result) :
    (machine cfg).step process (.worker worker) =
      some ({ process.write (.worker worker) result.writes with
        workers := Function.update process.workers worker result.worker
        nextService := result.fresh }, .popped worker cmd :: result.events) := by
  subst ran
  have enabled : worker < cfg.workers ∧ (process.workers worker).running = true ∧
      process.calls (.worker worker) = .idle := ⟨legal, running, idle⟩
  simp only [machine, Process.step, Process.workerStep, if_pos enabled, unread]

theorem own_worker {server : Nat} {service : ServiceObject} (worker : Nat) :
    OwnServer server service process (.worker worker) :=
  ⟨⟨fun _ _ _ same => (by cases same), fun _ _ same => (by cases same)⟩,
    fun _ _ _ same => (by cases same), fun _ _ _ same => (by cases same)⟩

theorem worker_reaches {service : ServiceObject} {worker : Nat} {cmd : WorkerCmd}
    {rest : List WorkerCmd} {info : ConnectionInfo} {name : Bytes}
    (run : Run (machine cfg) allowed events process)
    (fired : (machine cfg).step process (.worker worker) = some (after, emitted))
    (unread : (process.workers worker).queue = cmd :: rest)
    (other : ∀ svc, cmd ≠ .registerSvc info name svc)
    (reaches : Reaches process service worker info name) :
    Reaches after service worker info name := by
  cases step_move fired with
  | worker _ first remaining legal running idle queue result same =>
    rw [unread] at queue
    obtain ⟨rfl, rfl⟩ := List.cons.inj queue
    subst same
    rcases reaches with ⟨wrapper, found⟩ | ⟨missing, member⟩
    · have before : lookup { process.workers worker with queue := rest } info name =
        some (.mono wrapper service) := found
      have kept := exec_keeps cfg process.factories worker process.nextService cmd before other
      exact .inl ⟨wrapper, by simpa using kept⟩
    · have before : { process.workers worker with queue := rest }.handlers info = none := missing
      rcases exec_keeps_reach cfg (distinct_of_run run info) other before member with
        none | ⟨wrapper, found⟩
      · exact .inr ⟨by simpa using none, member⟩
      · exact .inl ⟨wrapper, by simpa using found⟩

theorem worker_dispatches {server : Nat} {service : ServiceObject} {worker : Nat}
    {info : ConnectionInfo} {name header payload : Bytes} {before rest : List WorkerCmd}
    (run : Run (machine cfg) (OwnServer server service) events process)
    (legal : worker < cfg.workers) (running : (process.workers worker).running = true)
    (idle : process.calls (.worker worker) = .idle)
    (reaches : Reaches process service worker info name)
    (unread : (process.workers worker).queue = before ++ .handleData info header payload :: rest)
    (asks : (requestOf cfg header).map Prod.snd = some name)
    (kept : ∀ svc, .registerSvc info name svc ∉ before) (unquit : .quitWorker ∉ before) :
    ∃ later final, Steps (machine cfg) (OwnServer server service) process later final ∧
      ∃ event ∈ later, Dispatches service event := by
  induction before generalizing events process with
  | nil =>
    have fired := worker_fires legal running idle unread rfl
    have cached : Cached worker events { process.workers worker with queue := rest }.handlers :=
      cached_of_run run worker
    obtain ⟨event, reported, dispatches⟩ : ∃ event ∈ ({ process.workers worker with
        queue := rest }.exec cfg process.factories worker process.nextService
          (.handleData info header payload)).events, Dispatches service event :=
      exec_reaches_dispatch cached (distinct_of_run run info) payload asks reaches
    exact ⟨_, _, .single (own_worker worker) fired, event, List.mem_cons_of_mem _ reported,
      dispatches⟩
  | cons cmd before ih =>
    have replaces : ∀ svc, cmd ≠ .registerSvc info name svc :=
      fun svc same => kept svc (by rw [same]; exact List.mem_cons_self)
    have goes : cmd ≠ .quitWorker := fun same => unquit (by rw [same]; exact List.mem_cons_self)
    have fired := worker_fires legal running idle unread rfl
    obtain ⟨later, final, steps, event, member, dispatches⟩ :=
      ih (run.next (own_worker worker) fired) (by simpa [exec_running _ _ _ _ goes] using running)
        idle (worker_reaches run fired unread replaces reaches) (by simp [exec_queue]) (fun svc listed => kept svc (List.mem_cons_of_mem _ listed))
        (fun listed => unquit (List.mem_cons_of_mem _ listed))
    exact ⟨_, _, (Steps.single (own_worker worker) fired).trans steps, event,
      List.mem_append_right _ member, dispatches⟩

theorem own_unbind {server : Nat} {service : ServiceObject} (thread : Thread) :
    OwnServer server service process (.thread thread .nextUnbind) :=
  ⟨⟨fun _ _ _ same => (by cases same), fun _ _ same => (by cases same)⟩,
    fun _ _ _ same => (by cases same), fun _ _ _ same => (by cases same)⟩

theorem workers_run (run : Run (machine cfg) allowed events process)
    (used : process.shutdown = .running) (worker : Nat) :
    (process.workers worker).running = true ∧ .quitWorker ∉ (process.workers worker).queue := by
  have working := ShutdownWork.working_of_run run
  have unquit := working.unquit (.inl used) worker
  have delivered := delivered_of_run run worker
  have untold : .quitWorker ∉ queuedFor worker events :=
    fun member => unquit (mem_queuedFor.mp member)
  rw [delivered, List.append_assoc, List.mem_append, List.mem_append, not_or, not_or] at untold
  refine ⟨?_, untold.2.1⟩
  by_contra stopped
  exact untold.1 (Completion.mem_processed.mpr (working.running worker (by simpa using stopped)))

theorem awaited_used {server : Nat} {service : ServiceObject} {thread : Thread}
    (run : Run (machine cfg) (OwnServer server service) events process)
    (used : process.shutdown = .running) (inside : process.calls thread = .destroying server [])
    (awaits : Awaits cfg process service) :
    ∃ later final, Steps (machine cfg) (OwnServer server service) process later final ∧
      ¬ UsedInLifetime server service (events ++ later) := by
  obtain ⟨worker, info, name, before, header, payload, rest, legal, idle, reaches, unread, asks,
    kept⟩ := awaits
  obtain ⟨running, unquit⟩ := workers_run run used worker
  have fired : (machine cfg).step process (.thread thread .nextUnbind) =
      some ({ process.setCall thread .idle with
        servers := Function.update process.servers server .destroyed },
        [.serverDestroyed server]) := by
    simp only [machine, Process.step, Process.threadStep, if_pos used, inside, Process.continueCall]
  have still : (process.setCall thread .idle).calls (.worker worker) = .idle := by
    by_cases same : Thread.worker worker = thread
    · simp [Process.setCall, same]
    · simpa [Process.setCall, Function.update_of_ne same] using idle
  obtain ⟨later, final, steps, event, member, dispatches⟩ :=
    worker_dispatches (run.next (own_unbind thread) fired) legal running still reaches unread asks
      kept (fun listed => unquit (by rw [unread]; exact List.mem_append_left _ listed))
  refine ⟨_, final, (Steps.single (own_unbind thread) fired).trans steps, fun alive => ?_⟩
  exact alive events later (by simp) event member dispatches

/-- If the destructor of the server returns only when the service is retired, nothing
is dispatched to the service afterwards. A request for it that the destructor leaves
in the queue of a worker is dispatched in some continuation. -/
theorem service_used_alive (cfg : Config) (server : Nat) (service : ServiceObject) :
    (∀ events process, Run (machine cfg) (Retires cfg server service) events process →
      UsedInLifetime server service events) ∧
    ∀ events process thread, Run (machine cfg) (OwnServer server service) events process →
      process.shutdown = .running → process.calls thread = .destroying server [] →
        Awaits cfg process service →
          ∃ later final, Steps (machine cfg) (OwnServer server service) process later final ∧
            ¬ UsedInLifetime server service (events ++ later) :=
  ⟨fun _ _ run => (retired_of_run run).1,
    fun _ _ _ run used inside awaits => awaited_used run used inside awaits⟩

/-! ## Runs -/

def singleton : List Action :=
  [.thread (.app 0) (.newServer 0),
    .thread (.app 0) (.registerFactory (.server 0) [2] (.singleton ⟨9, 5⟩)),
    .thread (.app 0) (.serverBind 0 [1])] ++ commandTurn 1 ++ BindAtomicity.inserting

def asked : List Action :=
  [.loopTop, .timers 0, .poll (.ready [false, true]), .dispatch .nothing,
    .dispatch (.message ([7] :: [] :: requestFrames protobuf 1 [2] [3] [4])), .flush,
    .dispatch .nothing]

def closing : List Action := (unserved 0 2).dropLast

/-- Factories are added to server 0 only, and its destructor does not return. -/
def confined (process : Process) : Action → Bool
  | .thread _ (.registerFactory map _ _) => map = .server 0 ∧ process.servers 0 ≠ .destroyed
  | .thread thread .nextUnbind => process.calls thread ≠ .destroying 0 []
  | _ => true

abbrev confining : Machine Process Action Event :=
  (machine plain).guarded (fun process action =>
    Solo process action ∧ addsOnly process action = true ∧ confined process action = true)

theorem retires_of_confined {action : Action} (orderly : Orderly process action)
    (inside : confined process action = true) :
    Retires cfg 0 ⟨9, 5⟩ process action := by
  refine ⟨⟨orderly.lifetime, fun thread map name same => ?_, fun thread name factory same => ?_⟩,
    fun thread same last => ?_⟩
  · subst same
    simp only [confined, decide_eq_true_eq] at inside
    exact inside.1
  · subst same
    simp only [confined, decide_eq_true_eq] at inside
    exact inside.2
  · subst same
    simp only [confined, decide_eq_true_eq] at inside
    exact absurd last inside

theorem retires_run (actions : List Action) :
    Run (machine plain) (Retires plain 0 ⟨9, 5⟩) (reached confining actions).2
      (reached confining actions).1 :=
  (orderly_of_solo (Steps.of_guarded (run_reached confining actions))).mono
    (fun _ _ met => retires_of_confined met.1 met.2.2)

def within (index : Nat) : Event → Bool
  | .handlerCreated _ info _ => info.isRouter ∧ info.index = index
  | .factoriesInserted _ other => other = index
  | .queued worker _ => worker = 0
  | _ => true

theorem retired_of_within {service : ServiceObject} {index : Nat}
    (run : Run (machine cfg) KeepsFactories events process)
    (only : events.all (within index) = true) (empty : (process.workers 0).queue = [])
    (performed : process.broker.outbox = [])
    (deleted : SocketDeleted process.broker (.router index [])) : Retired cfg process service := by
  have every := List.all_eq_true.mp only
  intro worker info name reaches
  have router : info.isRouter = true ∧ info.index = index := by
    rcases reaches with ⟨wrapper, found⟩ | ⟨_, member⟩
    · obtain ⟨handler, held, _⟩ := Option.bind_eq_some_iff.mp found
      obtain ⟨_, services, created, _⟩ := cached_of_run run worker info handler held
      simpa [within] using every _ created
    · obtain ⟨router, map, named, _⟩ := mem_factoriesOf.mp member
      obtain ⟨thread, inserted⟩ :=
        ((bindings_of_run run).reported info.index).mpr (by simp [named])
      exact ⟨router, by simpa [within] using every _ inserted⟩
  have idle : onTheWay process worker = [] := by
    rw [onTheWay, performed]
    refine List.append_eq_nil_iff.mpr ⟨List.eq_nil_iff_forall_not_mem.mpr (fun cmd member => ?_), rfl⟩
    have delivered : cmd ∈ queuedFor worker events := by
      rw [delivered_of_run run worker]
      simp [member]
    have here : worker = 0 := by simpa [within] using every _ (mem_queuedFor.mp delivered)
    rw [here, empty] at member
    cases member
  refine ⟨⟨router.1, by rw [router.2]; exact deleted.2⟩, fun before header payload rest split => ?_⟩
  rw [idle] at split
  simp at split

def servedFirst : List Action := singleton ++ asked ++ [.worker 0] ++ closing

def leftBehind : List Action := singleton ++ asked ++ closing

theorem leftBehind_run : Run (machine plain) (OwnServer 0 ⟨9, 5⟩) (reached confining leftBehind).2
    (reached confining leftBehind).1 :=
  (retires_run leftBehind).mono (fun _ _ met => met.own)

theorem leftBehind_awaits : Awaits plain (reached confining leftBehind).1 ⟨9, 5⟩ :=
  ⟨0, .router 1 [7], [2], [], (requestFrames protobuf 1 [2] [3] [4]).headD [], [4], [],
    by decide +kernel, by decide +kernel, .inr ⟨by decide +kernel, by decide +kernel⟩,
    by decide +kernel, by decide +kernel, by simp⟩

/-- A destructor that finds the request served, and one that finds it queued. -/
theorem service_used_alive_served :
    (∃ events, UsedInLifetime 0 ⟨9, 5⟩ events ∧
      .dispatched (.router 1 [7]) 1 [2] (.mono 0 ⟨9, 5⟩) [3] [4] ∈ events ∧
        .serverDestroyed 0 ∈ events) ∧
    ∃ events later, .serverDestroyed 0 ∉ events ∧ ¬ UsedInLifetime 0 ⟨9, 5⟩ (events ++ later) := by
  have parts := service_used_alive plain 0 ⟨9, 5⟩
  constructor
  · have keeps : Run (machine plain) KeepsFactories (reached confining servedFirst).2
        (reached confining servedFirst).1 :=
      (Steps.of_guarded (run_reached confining servedFirst)).mono
        (fun _ _ met => keepsFactories_of_addsOnly met.2.1)
    have deleted : SocketDeleted (reached confining servedFirst).1.broker (.router 1 []) :=
      ⟨rfl, 1, by decide +kernel, by decide +kernel⟩
    have retired : Retired plain (reached confining servedFirst).1 ⟨9, 5⟩ :=
      retired_of_within keeps (by decide +kernel) (by decide +kernel) (by decide +kernel) deleted
    have returns : (machine plain).step (reached confining servedFirst).1
        (.thread (.app 0) .nextUnbind) = some (_, [.serverDestroyed 0]) :=
      step_of_enabled (by decide +kernel) (by decide +kernel)
    have whole := (retires_run servedFirst).next ⟨own_unbind _, fun _ _ _ => retired⟩ returns
    exact ⟨_, parts.1 _ _ whole, by decide +kernel, by simp⟩
  · obtain ⟨later, _, _, used⟩ := parts.2 _ _ (.app 0) leftBehind_run (by decide +kernel)
      (by decide +kernel) leftBehind_awaits
    exact ⟨_, later, by decide +kernel, used⟩

/-- A request that was queued before the destructor is dispatched after it. -/
theorem service_used_late : ¬ ∀ cfg server service events process,
    Run (machine cfg) (OwnServer server service) events process →
      UsedInLifetime server service events := by
  intro claim
  have inside : (reached confining leftBehind).1.calls (.app 0) = .destroying 0 [] := by
    decide +kernel
  obtain ⟨later, _, steps, used⟩ := awaited_used leftBehind_run (by decide +kernel) inside
    leftBehind_awaits
  exact used (claim _ _ _ _ _ (leftBehind_run.trans steps))

end Rpcz.SingletonServices
