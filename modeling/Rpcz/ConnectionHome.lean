import Rpcz.CommandFrames
import Rpcz.HandlerCache
import Rpcz.HeaderCodec
import Rpcz.RequestLog

/-!
Every command about a connection goes to the worker the connection hashes onto.
So one worker creates its only handler, and serves its requests in the order in
which the broker received them.
-/

namespace Rpcz.ConnectionHome
open Automaton Message EventLog ReactorLoop RequestHandlers WorkerThread BrokerThread ProcessModel
  Moves History EventIds RequestLog HandlerCache HeaderCodec

/-- The data messages the broker read, with the worker of their connection. -/
def arrivals (cfg : Config) (events : List Event) : List (Nat × WorkerCmd) :=
  events.filterMap fun
    | .arrived info header payload =>
      some (cfg.getWorkerIndex info, .handleData info header payload)
    | _ => none

def queuedData (events : List Event) : List (Nat × WorkerCmd) :=
  events.filterMap fun
    | .queued worker (.handleData info header payload) =>
      some (worker, .handleData info header payload)
    | _ => none

section Projections
variable (cfg : Config) (first second : List Event)

@[simp] theorem arrivals_append :
    arrivals cfg (first ++ second) = arrivals cfg first ++ arrivals cfg second :=
  List.filterMap_append ..

@[simp] theorem queuedData_append :
    queuedData (first ++ second) = queuedData first ++ queuedData second :=
  List.filterMap_append ..

variable {events : List Event}

theorem arrivals_none (silent : ∀ info header payload, .arrived info header payload ∉ events) :
    arrivals cfg events = [] := by
  refine List.filterMap_eq_nil_iff.mpr (fun event member => ?_)
  cases event with
  | arrived info header payload => exact absurd member (silent info header payload)
  | _ => rfl

theorem queuedData_none
    (silent : ∀ worker info header payload, .queued worker (.handleData info header payload) ∉ events) :
    queuedData events = [] := by
  refine List.filterMap_eq_nil_iff.mpr (fun event member => ?_)
  cases event with
  | queued worker cmd =>
    cases cmd with
    | handleData info header payload => exact absurd member (silent worker info header payload)
    | _ => rfl
  | _ => rfl

end Projections

structure Undelivering (result : Broker × List Event) : Prop where
  unread : ∀ info header payload, .arrived info header payload ∉ result.2
  unpushed : ∀ worker info header payload,
    .push worker (.handleData info header payload) ∉ result.1.outbox

section Handlers
variable (cfg : Config) (broker : Broker)

theorem fault_undelivering (performed : broker.outbox = []) (fault : Fault) :
    Undelivering (broker.fault fault) := by
  constructor <;> simp [Broker.fault, performed]

theorem loopTop_undelivering (performed : broker.outbox = []) : Undelivering broker.loopTop := by
  unfold Broker.loopTop
  split
  · constructor <;> simp [performed]
  · split
    · split
      · exact fault_undelivering broker performed _
      · refine ⟨fun info header payload member => ?_, by simp [Broker.emit, performed]⟩
        obtain ⟨pair, _, same⟩ := List.mem_map.mp member
        cases same
    · constructor <;> simp [performed]

theorem runTimers_undelivering (performed : broker.outbox = []) (now : UInt64) :
    Undelivering (broker.runTimers cfg now) := by
  constructor <;> simp [Broker.runTimers, Broker.emit, performed]

theorem afterPoll_undelivering (performed : broker.outbox = []) (outcome : PollOutcome) :
    Undelivering (broker.afterPoll outcome) := by
  cases outcome with
  | efault => exact fault_undelivering broker performed _
  | ready | eterm | error => constructor <;> simp [Broker.afterPoll, performed]

theorem handleCommand_undelivering (performed : broker.outbox = []) (oracle : Oracle)
    (sender : Thread) (cmd : Command) : Undelivering (broker.handleCommand cfg oracle sender cmd) := by
  cases cmd with
  | request info ctrl data =>
    obtain ⟨_, outcome⟩ := sendRequest_cases cfg broker performed oracle info ctrl data
    rcases outcome with ⟨fault, _, unsent, report⟩ | ⟨socket, sent, report⟩
    · constructor <;> simp [Broker.handleCommand, unsent, report]
    · constructor <;> simp [Broker.handleCommand, sent, report]
  | quit | runClosure | registerSvc =>
    constructor <;> simp [Broker.handleCommand, Broker.emit, performed]
  | connect endpoint =>
    simp only [Broker.handleCommand, Broker.handleConnectCommand, Broker.fault, Broker.emit]
    split <;> constructor <;> simp [performed]
  | bind endpoint =>
    simp only [Broker.handleCommand, Broker.handleBindCommand, Broker.fault, Broker.emit]
    split <;> constructor <;> simp [performed]
  | unbind endpoint =>
    simp only [Broker.handleCommand, Broker.handleUnbindCommand]
    split <;> constructor <;> simp [performed]
  | reply info data =>
    simp only [Broker.handleCommand, Broker.forwardTo, Broker.fault, Broker.emit]
    split <;> constructor <;> simp [performed]

theorem receive_delivers (performed : broker.outbox = []) (callback : SocketCallback)
    (frames : List Frame) :
    Undelivering (broker.receive cfg callback frames) ∨
      ∃ info header payload,
        (broker.receive cfg callback frames).2 = [.arrived info header payload] ∧
        (broker.receive cfg callback frames).1.outbox =
          [.push (cfg.getWorkerIndex info) (.handleData info header payload)] := by
  have delivered : ∀ info frames, Undelivering (broker.handleSocket cfg info frames) ∨
      ∃ target header payload,
        (broker.handleSocket cfg info frames).2 = [.arrived target header payload] ∧
        (broker.handleSocket cfg info frames).1.outbox =
          [.push (cfg.getWorkerIndex target) (.handleData target header payload)] := by
    intro info frames
    unfold Broker.handleSocket
    split
    · exact .inr ⟨info, _, _, rfl, by simp [Broker.emit, performed]⟩
    · exact .inl (by constructor <;> simp [performed])
  cases callback with
  | frontend => exact .inl (fault_undelivering broker performed _)
  | dealer index =>
    simp only [Broker.receive, Broker.handleDealerSocket]
    split
    · exact .inl (fault_undelivering broker performed _)
    · split
      · exact .inl (fault_undelivering broker performed _)
      · exact delivered _ _
  | router index =>
    simp only [Broker.receive, Broker.handleRouterSocket]
    split
    · exact .inl (fault_undelivering broker performed _)
    · split
      · exact .inl (fault_undelivering broker performed _)
      · split
        · exact delivered _ _
        · exact .inl (by constructor <;> simp [performed])

end Handlers

variable {cfg : Config} {process after : Process} {events emitted : List Event}
  {allowed : Process → Action → Prop}

theorem Undelivering.none (cfg : Config) {result : Broker × List Event} (undelivering : Undelivering result)
    (silent : ∀ event ∈ result.2, origin event = .broker) :
    arrivals cfg (result.2 ++ queuedEvents result.1.outbox) = [] ∧
      queuedData (result.2 ++ queuedEvents result.1.outbox) = [] := by
  refine ⟨arrivals_none cfg ?_, queuedData_none ?_⟩
  · intro info header payload member
    rcases List.mem_append.mp member with reported | queued
    · exact undelivering.unread info header payload reported
    · simpa [origin] using queuedEvents_origin _ queued
  · intro worker info header payload member
    rcases List.mem_append.mp member with reported | queued
    · exact not_queued_of_broker silent reported
    · exact undelivering.unpushed worker info header payload (mem_queuedEvents.mp queued)

theorem delivered_step {action : Action} (move : Move cfg process action after emitted) :
    queuedData emitted = arrivals cfg emitted := by
  have aside : (∀ event ∈ emitted, origin event ≠ .broker) →
      (∀ worker info header payload, .queued worker (.handleData info header payload) ∉ emitted) →
        queuedData emitted = arrivals cfg emitted := by
    intro unread unqueued
    rw [queuedData_none unqueued, arrivals_none cfg]
    intro info header payload member
    exact unread _ member rfl
  cases move with
  | thread thread action after emitted running move =>
    have silent := (threadMove_frame move).2.2.2.2
    refine aside (fun event member => by rw [silent event member]; decide) ?_
    intro worker info header payload member
    simpa [origin] using silent _ member
  | loopTop phase performed =>
    have none := (loopTop_undelivering _ performed).none cfg (loopTop_origin _)
    rw [none.1, none.2]
  | timers now phase performed =>
    have none := (runTimers_undelivering cfg _ performed now).none cfg (runTimers_origin _ _ _)
    rw [none.1, none.2]
  | poll outcome phase performed =>
    have none := (afterPoll_undelivering _ performed outcome).none cfg (afterPoll_origin _ _)
    rw [none.1, none.2]
  | finished | quiet | outOfRange | release | joinWorkers => rfl
  | command i sender oracle cmd rest phase performed slot unread result same =>
    subst same
    have none := (handleCommand_undelivering cfg { process.broker with phase := .dispatch (i + 1) }
      performed oracle sender cmd).none cfg (handleCommand_origin _ _ _ _ _)
    change queuedData (_ ++ _) = arrivals cfg (_ ++ _)
    rw [none.1, none.2]
  | message i callback frames phase performed slot network nonempty result same =>
    subst same
    rcases receive_delivers cfg { process.broker with phase := .dispatch (i + 1) } performed callback
      frames with undelivering | ⟨info, header, payload, reported, pushed⟩
    · have none := undelivering.none cfg (receive_origin _ _ _ _)
      rw [none.1, none.2]
    · rw [reported, pushed]
      rfl
  | flush output rest live unperformed =>
    rw [queuedData_none, arrivals_none]
    · intro info header payload member
      cases output with
      | push | reply => simp [Process.perform] at member
      | send info' socket frames cause =>
        simp only [Process.perform] at member
        split at member <;> simp [Broker.fault] at member
    · exact fun worker info header payload =>
        not_queued_of_broker (perform_origin _ _)
  | worker index cmd rest legal running idle unread result same =>
    have silent : ∀ event ∈ result.events, origin event = .worker := same ▸ exec_origin _ _ _ _ _ _
    refine aside (fun event member => ?_) ?_
    · rcases List.mem_cons.mp member with rfl | later
      · simp [origin]
      · rw [silent event later]
        decide
    · intro worker info header payload member
      rcases List.mem_cons.mp member with popped | later
      · cases popped
      · simpa [origin] using silent _ later
  | joinBroker => exact aside (by simp [origin]) (by simp)

theorem delivered_data (run : Run (machine cfg) allowed events process) :
    queuedData events = arrivals cfg events := by
  refine Steps.invariant (fun events _ => queuedData events = arrivals cfg events) rfl ?_ run
  intro events process action emitted after _ before _ fired
  rw [queuedData_append, arrivals_append, before, delivered_step (step_move fired)]

/-! ## The worker of a connection -/

def connectionOf : WorkerCmd → Option ConnectionInfo
  | .handleData info _ _ => some info
  | .registerSvc info _ _ => some info
  | _ => none

theorem queued_home (run : Run (machine cfg) allowed events process) {worker : Nat} {cmd : WorkerCmd}
    {info : ConnectionInfo} (named : connectionOf cmd = some info)
    (queued : .queued worker cmd ∈ events) : worker = cfg.getWorkerIndex info := by
  have caused := (provenance_of_run run).queued worker cmd queued
  cases cmd with
  | handleData target header payload => cases named; exact caused.1
  | registerSvc target name svc => cases named; exact caused.1
  | startRpc | handleTimeout | runClosure | quitWorker => cases named

theorem mem_queuedFor {worker : Nat} {cmd : WorkerCmd} :
    cmd ∈ queuedFor worker events ↔ .queued worker cmd ∈ events := by
  constructor
  · intro listed
    obtain ⟨event, member, shown⟩ := List.mem_filterMap.mp listed
    cases event with
    | queued index other =>
      simp only [Option.ite_none_right_eq_some, Option.some.injEq] at shown
      obtain ⟨rfl, rfl⟩ := shown
      exact member
    | _ => cases shown
  · exact fun member => List.mem_filterMap.mpr ⟨_, member, by simp⟩

theorem popped_home (run : Run (machine cfg) allowed events process) {worker : Nat} {cmd : WorkerCmd}
    {info : ConnectionInfo} (named : connectionOf cmd = some info)
    (popped : .popped worker cmd ∈ events) : worker = cfg.getWorkerIndex info := by
  refine queued_home run named (mem_queuedFor.mp ?_)
  rw [delivered_of_run run worker]
  refine List.mem_append_left _ (List.mem_append_left _ ?_)
  exact List.mem_filterMap.mpr ⟨_, popped, by simp⟩

theorem unread_home (run : Run (machine cfg) allowed events process) {worker : Nat} {cmd : WorkerCmd}
    {rest : List WorkerCmd} (unread : (process.workers worker).queue = cmd :: rest)
    {info : ConnectionInfo} (named : connectionOf cmd = some info) :
    worker = cfg.getWorkerIndex info := by
  refine queued_home run named (mem_queuedFor.mp ?_)
  rw [delivered_of_run run worker, unread]
  simp

/-! ## What one command does for one connection -/

def creation (info : ConnectionInfo) : Event → Option (Nat × List (Bytes × Service))
  | .handlerCreated worker target services =>
    if target = info then some (worker, services) else none
  | _ => none

/-- The handlers created for a connection, with the worker that created them. -/
def creations (info : ConnectionInfo) (events : List Event) : List (Nat × List (Bytes × Service)) :=
  events.filterMap (creation info)

/-- The event id and the service name in the request header of a message. -/
def requestOf (cfg : Config) (header : Bytes) : Option (UInt64 × Bytes) :=
  (cfg.proto.parseHeader header).bind (fun parsed =>
    parsed.reqHdr.map (fun request => (request.getEventId, request.getService)))

def service (info : ConnectionInfo) : Event → Option (UInt64 × Bytes)
  | .dispatched target eventId name _ _ _ => if target = info then some (eventId, name) else none
  | .noSuchService target eventId name => if target = info then some (eventId, name) else none
  | _ => none

/-- The requests of a connection that a handler dispatched or refused. -/
def served (info : ConnectionInfo) (events : List Event) : List (UInt64 × Bytes) :=
  events.filterMap (service info)

def dataOf (info : ConnectionInfo) : WorkerCmd → Option (Bytes × Bytes)
  | .handleData target header payload => if target = info then some (header, payload) else none
  | _ => none

def received (info : ConnectionInfo) (events : List Event) : List (Bytes × Bytes) :=
  events.filterMap fun
    | .arrived target header payload => if target = info then some (header, payload) else none
    | _ => none

def taken (info : ConnectionInfo) (events : List Event) : List (Bytes × Bytes) :=
  events.filterMap fun
    | .popped _ cmd => dataOf info cmd
    | _ => none

section Projections
variable (info : ConnectionInfo) (first second : List Event)

@[simp] theorem creations_append :
    creations info (first ++ second) = creations info first ++ creations info second :=
  List.filterMap_append ..

@[simp] theorem served_append :
    served info (first ++ second) = served info first ++ served info second :=
  List.filterMap_append ..

@[simp] theorem taken_append :
    taken info (first ++ second) = taken info first ++ taken info second :=
  List.filterMap_append ..

theorem creations_other {events : List Event}
    (elsewhere : ∀ event ∈ events, origin event ≠ .worker) : creations info events = [] := by
  refine filterMap_other .worker (fun event other => ?_) elsewhere
  cases event <;> simp_all [origin, creation]

theorem served_other {events : List Event} (elsewhere : ∀ event ∈ events, origin event ≠ .worker) :
    served info events = [] := by
  refine filterMap_other .worker (fun event other => ?_) elsewhere
  cases event <;> simp_all [origin, service]

theorem taken_other {events : List Event} (elsewhere : ∀ event ∈ events, origin event ≠ .popped) :
    taken info events = [] := by
  refine filterMap_other .popped (fun event other => ?_) elsewhere
  cases event <;> simp_all [origin]

end Projections

section Command
variable {factories : Nat → Option Factories} {index fresh : Nat} {worker : Worker}
  {cmd : WorkerCmd}

theorem getHandler_creates (factories : Nat → Option Factories) (index fresh : Nat)
    (handlers : HandlerMap) (target info : ConnectionInfo) :
    let got := getHandler factories index fresh handlers target
    served info got.2.events = [] ∧
    ((creations info got.2.events = [] ∧ got.2.handlers info = handlers info ∧
        (target = info → (handlers info).isSome)) ∨
      target = info ∧ handlers info = none ∧ got.2.handlers info = some got.1 ∧
        ∃ services, creations info got.2.events = [(index, services)]) := by
  intro got
  rcases getHandler_cases factories index fresh handlers target with
    ⟨found, same, silent⟩ | ⟨missing, _, added, created⟩
  · refine ⟨by rw [silent]; rfl, .inl ⟨by rw [silent]; rfl, by rw [same], fun here => ?_⟩⟩
    rw [← here, found]
    rfl
  · refine ⟨by rw [created]; rfl, ?_⟩
    by_cases here : target = info
    · subst here
      refine .inr ⟨rfl, missing, by rw [added, Function.update_self], got.1.serviceMap, ?_⟩
      change creations target (getHandler factories index fresh handlers target).2.events = _
      rw [created]
      simp [creations, creation, got]
    · refine .inl ⟨?_, by rw [added, Function.update_of_ne (fun same => here same.symm)],
        fun same => absurd same here⟩
      rw [created]
      simp [creations, creation, here]

theorem complete_silent (index fresh : Nat) (worker : Worker) (eventId : UInt64) (outcome : Outcome) (info : ConnectionInfo) :
    creations info (worker.complete index fresh eventId outcome).events = [] ∧
      served info (worker.complete index fresh eventId outcome).events = [] := by
  unfold Worker.complete
  split <;> exact ⟨rfl, rfl⟩

theorem handleRequest_served (cfg : Config) (handler : RequestHandler) (header : RequestHeader) (payload : Bytes)
    (info : ConnectionInfo) :
    creations info (handler.handleRequest cfg header payload).2 = [] ∧
      served info (handler.handleRequest cfg header payload).2 =
        if handler.info = info then [(header.getEventId, header.getService)] else [] := by
  have called : ∀ target svc, creations info
        (dispatchRequest cfg target header.getEventId svc header.getMethod payload).2 = [] ∧
      served info (dispatchRequest cfg target header.getEventId svc header.getMethod payload).2 = [] := by
    intro target svc
    unfold dispatchRequest
    split
    · exact ⟨rfl, rfl⟩
    · split
      · exact ⟨rfl, rfl⟩
      · split <;> exact ⟨rfl, rfl⟩
  unfold RequestHandler.handleRequest
  split
  · refine ⟨rfl, ?_⟩
    by_cases here : handler.info = info <;> simp [served, service, here]
  · next svc _ =>
    obtain ⟨none_created, none_served⟩ := called handler.info svc.target
    refine ⟨by simpa [creations, creation] using none_created, ?_⟩
    unfold served at none_served ⊢
    rw [List.filterMap_cons, none_served]
    by_cases here : handler.info = info <;> simp [service, here]

/-- What a command means for one connection: what it serves is the request it
carries, and it creates a handler only where there is none. -/
structure ForConnection (cfg : Config) (index : Nat) (info : ConnectionInfo) (cmd : WorkerCmd)
    (worker : Worker) (result : Result) : Prop where
  serves : served info result.events =
    ((dataOf info cmd).bind (fun data => requestOf cfg data.1)).toList
  creates : (creations info result.events = [] ∧
      (result.worker.handlers info).isSome = (worker.handlers info).isSome) ∨
    connectionOf cmd = some info ∧ worker.handlers info = none ∧
      (result.worker.handlers info).isSome ∧
      ∃ services, creations info result.events = [(index, services)]

theorem exec_forConnection (cfg : Config) (factories : Nat → Option Factories) (fresh : Nat)
    {events : List Event} (cached : Cached index events worker.handlers)
    (cmd : WorkerCmd) (info : ConnectionInfo) :
    ForConnection cfg index info cmd worker (worker.exec cfg factories index fresh cmd) := by
  have quiet : ∀ eventId outcome, (∀ data, dataOf info cmd = some data → requestOf cfg data.1 = none) →
      ForConnection cfg index info cmd worker (worker.complete index fresh eventId outcome) := by
    intro eventId outcome unasked
    obtain ⟨uncreated, unserved⟩ := complete_silent index fresh worker eventId
      outcome info
    refine ⟨?_, .inl ⟨uncreated, by rw [complete_handlers]⟩⟩
    rw [unserved]
    cases found : dataOf info cmd with
    | none => rfl
    | some data => simp [unasked data found]
  have idle : (∀ data, dataOf info cmd = some data → requestOf cfg data.1 = none) →
      ∀ after : Worker, after.handlers = worker.handlers → ∀ fresh writes events,
        creations info events = [] → served info events = [] →
          ForConnection cfg index info cmd worker ⟨after, fresh, writes, events⟩ := by
    intro unasked after same fresh writes events uncreated unserved
    refine ⟨?_, .inl ⟨uncreated, by rw [same]⟩⟩
    rw [unserved]
    cases found : dataOf info cmd with
    | none => rfl
    | some data => simp [unasked data found]
  cases cmd with
  | runClosure | startRpc | quitWorker => exact ⟨rfl, .inl ⟨rfl, rfl⟩⟩
  | handleTimeout eventId => exact quiet eventId _ (by simp [dataOf])
  | registerSvc target name svc =>
    obtain ⟨unserved, creates⟩ :=
      getHandler_creates factories index fresh worker.handlers target info
    have removed : ∀ services : List Service,
        creations info (services.map .serviceDeleted) = [] ∧
          served info (services.map .serviceDeleted) = [] := by
      intro services
      exact ⟨List.filterMap_eq_nil_iff.mpr (by simp [creation]),
        List.filterMap_eq_nil_iff.mpr (by simp [service])⟩
    refine ⟨?_, ?_⟩
    · simp only [Worker.exec, Worker.registerService, served_append, unserved, (removed _).2]
      rfl
    · simp only [Worker.exec, Worker.registerService, creations_append, (removed _).1,
        List.append_nil]
      rcases creates with ⟨uncreated, same, present⟩ | ⟨rfl, missing, _, created⟩
      · refine .inl ⟨uncreated, ?_⟩
        by_cases here : info = target
        · rw [← here, Function.update_self, present here.symm]
          rfl
        · rw [Function.update_of_ne here, same]
      · exact .inr ⟨rfl, missing, by simp, created⟩
  | handleData target header payload =>
    have unasked : (∀ parsed, cfg.proto.parseHeader header = some parsed → parsed.reqHdr = none) →
        ∀ data, dataOf info (.handleData target header payload) = some data →
          requestOf cfg data.1 = none := by
      intro none_asked data found
      simp only [dataOf, Option.ite_none_right_eq_some, Option.some.injEq] at found
      obtain ⟨_, rfl⟩ := found
      unfold requestOf
      cases readable : cfg.proto.parseHeader header with
      | none => rfl
      | some parsed => simp [none_asked parsed readable]
    simp only [Worker.exec, Worker.handleData]
    split
    · next unreadable =>
      exact idle (unasked (by simp [unreadable])) _ rfl _ _ _ rfl rfl
    · next parsed readable =>
      split
      · next request isRequest =>
        obtain ⟨unserved, creates⟩ :=
          getHandler_creates factories index fresh worker.handlers target info
        have own : (getHandler factories index fresh worker.handlers target).1.info = target := by
          obtain ⟨kept, found⟩ := getHandler_cached factories fresh cached target
          exact (kept target _ found).1
        obtain ⟨uncreated, serves⟩ := handleRequest_served cfg
          (getHandler factories index fresh worker.handlers target).1 request payload info
        refine ⟨?_, ?_⟩
        · simp only [Worker.handleRequest, served_append, unserved, serves, own, List.nil_append]
          by_cases here : target = info <;> simp [dataOf, requestOf, here, readable, isRequest]
        · simp only [Worker.handleRequest, creations_append, uncreated, List.append_nil]
          rcases creates with ⟨none_created, same, _⟩ | ⟨rfl, missing, present, created⟩
          · exact .inl ⟨none_created, by rw [same]⟩
          · exact .inr ⟨rfl, missing, by rw [present]; rfl, created⟩
      · next noRequest =>
        split
        · exact quiet _ _ (unasked (fun other same => by
            rw [readable, Option.some.injEq] at same
            rw [← same, noRequest]))
        · exact idle (unasked (fun other same => by
            rw [readable, Option.some.injEq] at same
            rw [← same, noRequest])) _ rfl _ _ _ rfl rfl

def lookup (worker : Worker) (info : ConnectionInfo) (name : Bytes) : Option Service :=
  (worker.handlers info).bind (fun handler => handler.find name)

theorem getHandler_lookup (factories : Nat → Option Factories) (index fresh : Nat)
    {handlers : HandlerMap} (target info : ConnectionInfo) (name : Bytes)
    {svc : Service} (found : (handlers info).bind (fun handler => handler.find name) = some svc) :
    ((getHandler factories index fresh handlers target).2.handlers info).bind
      (fun handler => handler.find name) = some svc := by
  rcases (getHandler_creates factories index fresh handlers target info).2 with
    ⟨_, same, _⟩ | ⟨_, missing, _⟩
  · rw [same, found]
  · rw [missing] at found
    cases found

theorem exec_keeps (cfg : Config) (factories : Nat → Option Factories) (index fresh : Nat)
    (cmd : WorkerCmd) {info : ConnectionInfo} {name : Bytes} {svc : Service}
    (found : lookup worker info name = some svc)
    (other : ∀ replacing, cmd ≠ .registerSvc info name replacing) :
    lookup (worker.exec cfg factories index fresh cmd).worker info name = some svc := by
  cases cmd with
  | runClosure | startRpc | quitWorker => exact found
  | handleTimeout eventId =>
    simp only [lookup, Worker.exec, Worker.handleTimeout, complete_handlers]
    exact found
  | handleData target header payload =>
    simp only [lookup, Worker.exec, Worker.handleData]
    split
    · exact found
    · split
      · exact getHandler_lookup factories index fresh target info name found
      · split
        · simp only [Worker.handleResponse, complete_handlers]
          exact found
        · exact found
  | registerSvc target registered replacing =>
    have kept := getHandler_lookup factories index fresh target info name found
    simp only [lookup, Worker.exec, Worker.registerService]
    by_cases here : info = target
    · subst here
      rw [Function.update_self, Option.bind_some, registerService_find]
      rcases (getHandler_creates factories index fresh worker.handlers info info).2 with
        ⟨_, same, present⟩ | ⟨_, missing, _⟩
      · have apart : name ≠ registered := fun same => other replacing (by rw [same])
        rw [if_neg apart]
        obtain ⟨handler, held⟩ := Option.isSome_iff_exists.mp (present rfl)
        have got : (getHandler factories index fresh worker.handlers info).1 = handler := by
          unfold getHandler
          rw [held]
        rw [same, held] at kept
        rw [got]
        exact kept
      · simp [lookup, missing] at found
    · rw [Function.update_of_ne here]
      exact kept

theorem exec_registers (cfg : Config) (factories : Nat → Option Factories) (index fresh : Nat)
    (worker : Worker) (info : ConnectionInfo) (name : Bytes) (svc : ServiceObject) :
    lookup (worker.exec cfg factories index fresh (.registerSvc info name svc)).worker info name =
      some (.own svc) := by
  simp [lookup, Worker.exec, Worker.registerService, registerService_find]

theorem exec_dispatched {events : List Event} (cached : Cached index events worker.handlers)
    {info : ConnectionInfo} {eventId : UInt64} {name method payload : Bytes} {svc : Service}
    (dispatched : .dispatched info eventId name svc method payload ∈
      (worker.exec cfg factories index fresh cmd).events) :
    connectionOf cmd = some info ∧
      lookup (worker.exec cfg factories index fresh cmd).worker info name = some svc := by
  have completing : ∀ id outcome, .dispatched info eventId name svc method payload ∉
      (worker.complete index fresh id outcome).events := by
    intro id outcome
    unfold Worker.complete
    split <;> simp
  have silent : ∀ target, .dispatched info eventId name svc method payload ∉
      (getHandler factories index fresh worker.handlers target).2.events := by
    intro target
    unfold getHandler
    split <;> simp
  cases cmd with
  | runClosure | startRpc | quitWorker => simp [Worker.exec, Worker.startRpc] at dispatched
  | handleTimeout id => exact absurd dispatched (completing _ _)
  | registerSvc target name' replacing =>
    rcases List.mem_append.mp dispatched with got | removed
    · exact absurd got (silent _)
    · simp at removed
  | handleData target header payload' =>
    simp only [lookup, Worker.exec, Worker.handleData] at dispatched ⊢
    split at dispatched
    · cases dispatched
    · split at dispatched
      · next request isRequest =>
        obtain ⟨kept, found⟩ := getHandler_cached factories fresh cached target
        have own := (kept target _ found).1
        rcases List.mem_append.mp dispatched with got | ran
        · exact absurd got (silent _)
        · unfold RequestHandler.handleRequest at ran
          split at ran
          · simp at ran
          · next service present =>
            rcases List.mem_cons.mp ran with same | inner
            · simp only [Event.dispatched.injEq] at same
              obtain ⟨rfl, rfl, rfl, rfl, rfl, rfl⟩ := same
              refine ⟨congrArg some own.symm, ?_⟩
              simp only [Worker.handleRequest]
              rw [own, found]
              exact present
            · unfold dispatchRequest at inner
              split at inner
              · cases inner
              · split at inner
                · cases inner
                · split at inner <;> simp at inner
      · split at dispatched
        · exact absurd dispatched (completing _ _)
        · cases dispatched

end Command

/-! ## Whole runs -/

/-- A connection has a handler only at its worker, and one creation accounts for it. -/
structure Homed (cfg : Config) (events : List Event) (process : Process) : Prop where
  elsewhere : ∀ info worker, worker ≠ cfg.getWorkerIndex info →
    (process.workers worker).handlers info = none
  kept : ∀ info, ((process.workers (cfg.getWorkerIndex info)).handlers info).isSome →
    ∃ services, creations info events = [(cfg.getWorkerIndex info, services)]
  missing : ∀ info, (process.workers (cfg.getWorkerIndex info)).handlers info = none →
    creations info events = []
  serves : ∀ info, served info events =
    (taken info events).filterMap (fun data => requestOf cfg data.1)

theorem Homed.silent_step (homed : Homed cfg events process)
    (handlers : ∀ worker, (after.workers worker).handlers = (process.workers worker).handlers)
    (elsewhere : ∀ event ∈ emitted, origin event ≠ .worker ∧ origin event ≠ .popped) :
    Homed cfg (events ++ emitted) after := by
  have uncreated := fun info =>
    creations_other info (fun event member => (elsewhere event member).1)
  have unserved := fun info => served_other info (fun event member => (elsewhere event member).1)
  have untaken := fun info => taken_other info (fun event member => (elsewhere event member).2)
  constructor
  · intro info worker apart
    rw [handlers, homed.elsewhere info worker apart]
  · intro info present
    rw [handlers] at present
    rw [creations_append, uncreated, List.append_nil]
    exact homed.kept info present
  · intro info absent
    rw [handlers] at absent
    rw [creations_append, uncreated, List.append_nil]
    exact homed.missing info absent
  · intro info
    rw [served_append, taken_append, unserved, untaken, List.append_nil, List.append_nil]
    exact homed.serves info

theorem homed_of_run (run : Run (machine cfg) allowed events process) :
    Homed cfg events process := by
  refine Steps.invariant (Homed cfg) ?_ ?_ run
  · constructor
    · intro info worker _
      rfl
    · intro info present
      cases present
    · intro info _
      rfl
    · intro info
      rfl
  · intro events process action emitted after earlier homed _ fired
    have move := step_move fired
    by_cases worked : ∃ worker, action = .worker worker
    · obtain ⟨worker, rfl⟩ := worked
      cases move with
      | worker index cmd rest legal running idle unread result same =>
        have own : ∀ info, connectionOf cmd = some info → worker = cfg.getWorkerIndex info :=
          fun info => unread_home earlier unread
        have cached : Cached worker events
            { process.workers worker with queue := rest }.handlers := cached_of_run earlier worker
        have spec := fun info => exec_forConnection cfg process.factories process.nextService cached cmd info
        rw [same] at spec
        have emptied : ∀ info, creations info (.popped worker cmd :: result.events) =
            creations info result.events := fun info => rfl
        constructor
        · intro info other apart
          by_cases here : other = worker
          · subst here
            have before := homed.elsewhere info other apart
            rcases (spec info).creates with ⟨_, same⟩ | ⟨named, _⟩
            · simp only [before] at same
              simpa [Process.write] using same
            · exact absurd (own info named) apart
          · simp only [Function.update_of_ne here]
            exact homed.elsewhere info other apart
        · intro info present
          rw [creations_append, emptied]
          by_cases here : cfg.getWorkerIndex info = worker
          · rw [here] at present ⊢
            have before := homed.kept info
            have absent := homed.missing info
            rw [here] at before absent
            simp only [Function.update_self] at present
            rcases (spec info).creates with ⟨none_created, same⟩ | ⟨_, missing, _, services, made⟩
            · rw [none_created, List.append_nil]
              exact before (same.symm.trans present)
            · rw [absent missing, made]
              exact ⟨services, rfl⟩
          · simp only [Function.update_of_ne here] at present
            rcases (spec info).creates with ⟨none_created, _⟩ | ⟨named, _⟩
            · rw [none_created, List.append_nil]
              exact homed.kept info present
            · exact absurd (own info named).symm here
        · intro info absent
          rw [creations_append, emptied]
          rcases (spec info).creates with ⟨none_created, same⟩ | ⟨named, missing, present, _⟩
          · rw [none_created, List.append_nil]
            refine homed.missing info ?_
            by_cases here : cfg.getWorkerIndex info = worker
            · rw [here] at absent ⊢
              simp only [Function.update_self] at absent
              rw [absent] at same
              simpa using same.symm
            · simpa [Process.write, Function.update_of_ne here] using absent
          · rw [← own info named] at absent
            simp only [Function.update_self] at absent
            rw [absent] at present
            cases present
        · intro info
          have untaken : taken info result.events = [] :=
            taken_other info (fun event member => by
              rw [← same] at member
              rw [exec_origin _ _ _ _ _ _ event member]
              decide)
          have front : taken info (.popped worker cmd :: result.events) =
              (dataOf info cmd).toList := by
            change taken info ([.popped worker cmd] ++ result.events) = _
            rw [taken_append, untaken, List.append_nil]
            cases found : dataOf info cmd <;> simp [taken, found]
          have back : served info (.popped worker cmd :: result.events) =
              served info result.events := rfl
          rw [served_append, taken_append, List.filterMap_append, homed.serves info, front, back,
            (spec info).serves]
          cases dataOf info cmd with
          | none => rfl
          | some data => cases found : requestOf cfg data.1 <;> simp [found]
    · have handlers : ∀ worker, (after.workers worker).handlers = (process.workers worker).handlers :=
        fun worker => handlers_kept move (fun same => worked ⟨worker, same⟩)
      refine homed.silent_step handlers (fun event member => ?_)
      by_cases source : origin event = .popped ∨ origin event = .worker
      · obtain ⟨index, cmd, rest, result, acted, _⟩ := worker_move move member source
        exact absurd ⟨index, acted⟩ worked
      · rw [not_or] at source
        exact ⟨source.2, source.1⟩

theorem taken_processed (run : Run (machine cfg) allowed events process) (info : ConnectionInfo) :
    taken info events =
      (processed (cfg.getWorkerIndex info) events).filterMap (dataOf info) := by
  unfold taken processed
  rw [List.filterMap_filterMap]
  refine List.filterMap_congr (fun event member => ?_)
  cases event with
  | popped worker cmd =>
    by_cases here : worker = cfg.getWorkerIndex info
    · simp [here]
    · cases found : dataOf info cmd with
      | none => simp [here, found]
      | some data =>
        have named : connectionOf cmd = some info := by
          cases cmd with
          | handleData target header payload =>
            simp only [dataOf, Option.ite_none_right_eq_some] at found
            rw [← found.1]
            rfl
          | _ => cases found
        exact absurd (popped_home run named member) here
  | _ => rfl

theorem received_queued (run : Run (machine cfg) allowed events process) (info : ConnectionInfo) :
    received info events =
      (queuedFor (cfg.getWorkerIndex info) events).filterMap (dataOf info) := by
  have read : received info events =
      (arrivals cfg events).filterMap (fun entry => dataOf info entry.2) := by
    unfold received arrivals
    rw [List.filterMap_filterMap]
    refine List.filterMap_congr (fun event _ => ?_)
    cases event <;> rfl
  rw [read, ← delivered_data run]
  unfold queuedData queuedFor
  rw [List.filterMap_filterMap, List.filterMap_filterMap]
  refine List.filterMap_congr (fun event member => ?_)
  cases event with
  | queued worker cmd =>
    cases cmd with
    | handleData target header payload =>
      by_cases here : worker = cfg.getWorkerIndex info
      · simp [here]
      · have apart : target ≠ info := fun same =>
          here (queued_home run (by rw [← same]; rfl) member)
        simp [here, dataOf, apart]
    | _ => by_cases here : worker = cfg.getWorkerIndex info <;> simp [here, dataOf]
  | _ => rfl

theorem taken_received (run : Run (machine cfg) allowed events process) (info : ConnectionInfo) :
    taken info events <+: received info events := by
  rw [taken_processed run, received_queued run, delivered_of_run run, List.append_assoc,
    List.filterMap_append]
  exact List.prefix_append ..

theorem lookup_dispatched (run : Run (machine cfg) allowed events process) {action : Action}
    (fired : (machine cfg).step process action = some (after, emitted))
    {info : ConnectionInfo} {eventId : UInt64} {name method payload : Bytes} {svc : Service}
    (dispatched : .dispatched info eventId name svc method payload ∈ emitted) :
    lookup (after.workers (cfg.getWorkerIndex info)) info name = some svc := by
  obtain ⟨index, cmd, rest, result, _, unread, same, moved, report⟩ :=
    worker_move (step_move fired) dispatched (.inr (by simp [origin]))
  have inside : .dispatched info eventId name svc method payload ∈ result.events := by
    rw [report] at dispatched
    simpa using dispatched
  have cached : Cached index events { process.workers index with queue := rest }.handlers :=
    cached_of_run run index
  rw [← same] at inside
  obtain ⟨named, found⟩ := exec_dispatched cached inside
  rw [same] at found
  rw [moved, ← unread_home run unread named]
  simpa using found

theorem lookup_kept {action : Action}
    (fired : (machine cfg).step process action = some (after, emitted)) {worker : Nat}
    {info : ConnectionInfo} {name : Bytes} {svc : Service}
    (found : lookup (process.workers worker) info name = some svc)
    (unregistered : ∀ replacing, .popped worker (.registerSvc info name replacing) ∉ emitted) :
    lookup (after.workers worker) info name = some svc := by
  by_cases own : action = .worker worker
  · subst own
    cases step_move fired with
    | worker index cmd rest legal running idle unread result same =>
      have before : lookup { process.workers worker with queue := rest } info name = some svc := found
      have kept := exec_keeps cfg process.factories worker process.nextService cmd before (fun replacing equal =>
          unregistered replacing (by rw [equal]; exact List.mem_cons_self))
      rw [same] at kept
      simpa using kept
  · unfold lookup at found ⊢
    rw [handlers_kept (step_move fired) own]
    exact found

theorem lookup_of_run (run : Run (machine cfg) allowed events process) {before rest : List Event}
    {info : ConnectionInfo} {eventId : UInt64} {name method payload : Bytes} {svc : Service}
    (split : events = before ++ .dispatched info eventId name svc method payload :: rest)
    (unregistered : ∀ worker replacing, .popped worker (.registerSvc info name replacing) ∉ rest) :
    lookup (process.workers (cfg.getWorkerIndex info)) info name = some svc := by
  revert before rest
  refine Steps.invariant (fun events process => ∀ {before rest : List Event},
    events = before ++ .dispatched info eventId name svc method payload :: rest →
    (∀ worker replacing, .popped worker (.registerSvc info name replacing) ∉ rest) →
      lookup (process.workers (cfg.getWorkerIndex info)) info name = some svc) ?_ ?_ run
  · intro before rest split
    simp at split
  · intro events process action emitted after earlier ih _ fired before rest split unregistered
    rcases List.append_eq_append_iff.mp split with ⟨pre, front, back⟩ | ⟨gap, front, back⟩
    · have new : .dispatched info eventId name svc method payload ∈ emitted := by rw [back]; simp
      exact lookup_dispatched earlier fired new
    · cases gap with
      | nil =>
        have new : .dispatched info eventId name svc method payload ∈ emitted := by
          rw [List.nil_append] at back
          rw [← back]
          exact List.mem_cons_self
        exact lookup_dispatched earlier fired new
      | cons head tail =>
        simp only [List.cons_append, List.cons.injEq] at back
        obtain ⟨rfl, rfl⟩ := back
        refine lookup_kept fired (ih front (fun worker replacing member =>
          unregistered worker replacing (List.mem_append_left _ member))) (fun replacing member => ?_)
        exact unregistered _ replacing (List.mem_append_right _ member)

theorem same_service (run : Run (machine cfg) allowed events process)
    {before between rest : List Event} {info : ConnectionInfo} {firstId secondId : UInt64}
    {name method payload method' payload' : Bytes} {first second : Service}
    (split : events = before ++ .dispatched info firstId name first method payload ::
      (between ++ .dispatched info secondId name second method' payload' :: rest))
    (unregistered : ∀ worker replacing,
      .popped worker (.registerSvc info name replacing) ∉ between) : first = second := by
  subst split
  have regrouped : Run (machine cfg) allowed
      ((before ++ .dispatched info firstId name first method payload :: between) ++
        .dispatched info secondId name second method' payload' :: rest) process := by
    rw [List.append_assoc]
    exact run
  cases regrouped.occurs with
  | «at» earlier pre post later state action after' ran permitted fired left remaining right =>
    have quiet : ∀ worker replacing, .popped worker (.registerSvc info name replacing) ∉ post := by
      intro worker replacing member
      obtain ⟨index, cmd, queue, result, _, _, same, _, report⟩ :=
        worker_move (step_move fired) (List.mem_append_right pre List.mem_cons_self)
          (.inr (by simp [origin]))
      have silent : ∀ event ∈ result.events, origin event = .worker :=
        same ▸ exec_origin _ _ _ _ _ _
      cases pre with
      | nil =>
        simp only [List.nil_append, List.cons.injEq, reduceCtorEq, false_and] at report
      | cons head tail =>
        simp only [List.cons_append, List.cons.injEq] at report
        have inside : .popped worker (.registerSvc info name replacing) ∈ result.events := by
          rw [← report.2]
          simp [member]
        simpa [origin] using silent _ inside
    have next := ran.next permitted fired
    have last : earlier ++ (pre ++ .dispatched info secondId name second method' payload' :: post) =
        (earlier ++ pre) ++ .dispatched info secondId name second method' payload' :: post := by
      rw [List.append_assoc]
    have whole : earlier ++ (pre ++ .dispatched info secondId name second method' payload' :: post) =
        before ++ .dispatched info firstId name first method payload ::
          (between ++ .dispatched info secondId name second method' payload' :: post) := by
      rw [last, ← left, List.append_assoc]
      rfl
    have found := lookup_of_run next last quiet
    have kept := lookup_of_run next whole (fun worker replacing member => by
        rcases List.mem_append.mp member with inside | behind
        · exact unregistered worker replacing inside
        · rcases List.mem_cons.mp behind with same | later
          · cases same
          · exact quiet worker replacing later)
    rw [kept] at found
    exact Option.some.inj found

theorem mem_handledRequests {thread : Thread} {info : ConnectionInfo} {ctrl : Controller} :
    ⟨thread, info, ctrl⟩ ∈ handledRequests events ↔
      ∃ data, .handled thread (.request info ctrl data) ∈ events := by
  constructor
  · intro listed
    obtain ⟨event, member, shown⟩ := List.mem_filterMap.mp listed
    cases event with
    | handled sender cmd =>
      cases cmd with
      | request target other data =>
        simp only [Option.some.injEq, Issued.mk.injEq] at shown
        obtain ⟨rfl, rfl, rfl⟩ := shown
        exact ⟨data, member⟩
      | _ => cases shown
    | _ => cases shown
  · rintro ⟨data, member⟩
    exact List.mem_filterMap.mpr ⟨_, member, rfl⟩

/-- Everything about one connection happens at the worker it hashes onto. -/
structure OneWorker (cfg : Config) (events : List Event) : Prop where
  bounded : ∀ info, cfg.getWorkerIndex info < cfg.workers
  decoded : ∀ (address : CommandFrames.Address) frames rest,
    ∃ info, CommandFrames.readConnectionInfo
        (FrameStream.Iter.at (CommandFrames.infoFrames address.info ++ frames) rest) =
      .ok (info, FrameStream.Iter.at frames rest) ∧
        cfg.getWorkerIndex info = cfg.getWorkerIndex address.info
  named : ∀ worker cmd info, .queued worker cmd ∈ events → connectionOf cmd = some info →
    worker = cfg.getWorkerIndex info
  arrived : ∀ info header payload, .arrived info header payload ∈ events →
    .queued (cfg.getWorkerIndex info) (.handleData info header payload) ∈ events
  starts : ∀ worker ctrl, .queued worker (.startRpc ctrl) ∈ events →
    (∃ sender info data, .handled sender (.request info ctrl data) ∈ events) ∧
      ∀ sender info data, .handled sender (.request info ctrl data) ∈ events →
        worker = cfg.getWorkerIndex info
  timeouts : ∀ worker eventId, .queued worker (.handleTimeout eventId) ∈ events →
    ∃ sender info ctrl data, .handled sender (.request info ctrl data) ∈ events ∧
      ctrl.eventId = eventId ∧ ctrl.timeoutMs ≠ -1 ∧ worker = cfg.getWorkerIndex info
  ownTimeouts : (issued events).length < 2 ^ 64 → ∀ worker sender info ctrl data,
    .queued worker (.handleTimeout ctrl.eventId) ∈ events →
      .handled sender (.request info ctrl data) ∈ events → worker = cfg.getWorkerIndex info
  creator : ∀ worker info services, .handlerCreated worker info services ∈ events →
    worker = cfg.getWorkerIndex info
  oneHandler : ∀ info, (creations info events).length ≤ 1
  sameService : ∀ before between rest info firstId secondId name method payload method' payload'
      first second,
    events = before ++ .dispatched info firstId name first method payload ::
      (between ++ .dispatched info secondId name second method' payload' :: rest) →
    (∀ worker replacing, .popped worker (.registerSvc info name replacing) ∉ between) →
      first = second
  inOrder : ∀ info, taken info events <+: received info events
  dispatched : ∀ info, served info events =
    (taken info events).filterMap (fun data => requestOf cfg data.1)

theorem one_worker (run : Run (machine cfg) allowed events process) : OneWorker cfg events := by
  have known := provenance_of_run run
  have ledger := ledger_of_run run
  have homed := homed_of_run run
  have created : ∀ info, creations info events = [] ∨
      ∃ services, creations info events = [(cfg.getWorkerIndex info, services)] := by
    intro info
    cases found : (process.workers (cfg.getWorkerIndex info)).handlers info with
    | none => exact .inl (homed.missing info found)
    | some handler => exact .inr (homed.kept info (by rw [found]; rfl))
  exact {
    bounded := cfg.getWorkerIndex_lt
    decoded := fun address frames rest =>
      ⟨address.info, CommandFrames.readConnectionInfo_frames address, rfl⟩
    named := fun worker cmd info queued named => queued_home run named queued
    arrived := by
      intro info header payload arrived
      have listed : (cfg.getWorkerIndex info, WorkerCmd.handleData info header payload) ∈
          arrivals cfg events := List.mem_filterMap.mpr ⟨_, arrived, rfl⟩
      rw [← delivered_data run] at listed
      obtain ⟨event, member, shown⟩ := List.mem_filterMap.mp listed
      cases event with
      | queued worker cmd =>
        cases cmd with
        | handleData target header' payload' =>
          simp only [Option.some.injEq, Prod.mk.injEq, WorkerCmd.handleData.injEq] at shown
          obtain ⟨rfl, rfl, rfl, rfl⟩ := shown
          exact member
        | _ => cases shown
      | _ => cases shown
    starts := by
      intro worker ctrl queued
      obtain ⟨info, rfl, started⟩ := known.starts queued
      obtain ⟨⟨thread, handled⟩, _⟩ := started
      obtain ⟨data, member⟩ := mem_handledRequests.mp handled
      refine ⟨⟨thread, info, data, member⟩, fun sender other data' again => ?_⟩
      have same := ledger.serial_injective (ledger.handled_issued handled)
        (ledger.handled_issued (mem_handledRequests.mpr ⟨data', again⟩)) rfl
      rw [(Issued.mk.inj same).2.1]
    timeouts := by
      intro worker eventId queued
      obtain ⟨index, rfl, fired⟩ := known.queued worker _ queued
      obtain ⟨info, ctrl, ⟨⟨thread, handled⟩, _⟩, finite, same⟩ := known.fired eventId index fired
      obtain ⟨data, member⟩ := mem_handledRequests.mp handled
      obtain ⟨rfl, rfl⟩ := TimeoutClosure.mk.inj same
      exact ⟨thread, info, ctrl, data, member, rfl, finite,
        Nat.mod_eq_of_lt (cfg.getWorkerIndex_lt info)⟩
    ownTimeouts := by
      intro few worker sender info ctrl data queued handled
      obtain ⟨index, rfl, fired⟩ := known.queued worker _ queued
      obtain ⟨other, owner, ⟨⟨thread, owned⟩, _⟩, _, same⟩ := known.fired ctrl.eventId index fired
      obtain ⟨ids, rfl⟩ := TimeoutClosure.mk.inj same
      have equal := ledger.eventId_injective (ledger.length ▸ few)
        (ledger.handled_issued (mem_handledRequests.mpr ⟨data, handled⟩))
        (ledger.handled_issued owned) ids
      rw [(Issued.mk.inj equal).2.1]
      exact Nat.mod_eq_of_lt (cfg.getWorkerIndex_lt other)
    creator := by
      intro worker info services member
      have listed : (worker, services) ∈ creations info events :=
        List.mem_filterMap.mpr ⟨_, member, by simp [creation]⟩
      rcases created info with none | ⟨others, only⟩
      · rw [none] at listed
        cases listed
      · rw [only, List.mem_singleton, Prod.mk.injEq] at listed
        exact listed.1
    oneHandler := by
      intro info
      rcases created info with none | ⟨services, only⟩
      · rw [none]
        exact Nat.zero_le 1
      · rw [only]
        exact Nat.le_refl 1
    sameService := by
      intro before between rest info firstId secondId name method payload method' payload' first
        second split unregistered
      exact same_service run split unregistered
    inOrder := taken_received run
    dispatched := homed.serves }

abbrev twoWorkers : Config := linked 1 (fun _ => none) (fun _ _ => true)

def askedTwice : List Action :=
  [.thread (.app 0) (.registerFactory (.user 0) [2] (.perConnection 5)),
    .thread (.app 0) (.bind [1] 0), .loopTop, .timers 0, .poll (.ready [true]),
    .dispatch (.frontend (.app 0) ⟨true, 0, 0⟩), .flush, .dispatch .nothing,
    .thread (.app 0) .receive, .thread (.app 0) .insertFactories,
    .loopTop, .timers 0, .poll (.ready [false, true]), .dispatch .nothing,
    .dispatch (.message ([7] :: [] :: requestFrames protobuf 1 [2] [3] [4])), .flush,
    .dispatch .nothing, .loopTop, .timers 0, .poll (.ready [false, true]), .dispatch .nothing,
    .dispatch (.message ([7] :: [] :: requestFrames protobuf 2 [2] [3] [4])), .flush,
    .worker (twoWorkers.getWorkerIndex (.router 1 [7])),
    .worker (twoWorkers.getWorkerIndex (.router 1 [7]))]

theorem one_worker_askedTwice :
    OneWorker twoWorkers (reached (machine twoWorkers) askedTwice).2 ∧
      served (.router 1 [7]) (reached (machine twoWorkers) askedTwice).2 = [(1, [2]), (2, [2])] :=
  ⟨one_worker (run_reached (machine twoWorkers) askedTwice), by decide +kernel⟩

end Rpcz.ConnectionHome
