import Rpcz.Automaton
import Rpcz.BrokerThread
import Rpcz.WorkerThread

/-!
One process that uses the library while its manager exists: any number of
threads calling into connection.cc, manager.cc and server_impl.cc, the broker
thread and the worker threads. Every step is one action of one party, so a run
is an arbitrary interleaving. What peers send is chosen by the action that
reads it, which leaves its content, delay and order open.
-/

namespace Rpcz.ProcessModel
open Automaton Message EventLog ReactorLoop RequestHandlers WorkerThread BrokerThread

inductive Call where
  | idle
  /-- In `connection::request`, between `get_next_event_id` and the write. -/
  | requesting (info : ConnectionInfo) (ctrl : Controller) (data : List Frame)
  | connecting
  | binding (factories : MapId)
  /-- In `manager::bind`, between the reply and `factories_->insert`. -/
  | inserting (routerIndex : Nat) (factories : MapId)
  /-- In `manager::unbind`; inside `~server_impl` with the endpoints that remain. -/
  | unbinding (after : Option (Nat × List Bytes))
  /-- In `~server_impl`, in front of the next `unbind`. -/
  | destroying (server : Nat) (remaining : List Bytes)
deriving DecidableEq

/-- The stages of `manager::join_threads`. -/
inductive Shutdown where
  | running
  | joiningBroker
  | joiningWorkers
  | destroyed
deriving DecidableEq

/-- A server object with its `endpoints_`. -/
inductive Server where
  | absent
  | alive (endpoints : List Bytes)
  | destroyed
deriving DecidableEq

/-- `requests` counts the calls of `get_next_event_id`. -/
structure Process where
  nextEventId : UInt64
  requests : Nat
  calls : Thread → Call
  pipes : Thread → List Command
  replies : Thread → List Reply
  broker : Broker
  workers : Nat → Worker
  /-- `router_service_factories`. -/
  routerFactories : Nat → Option MapId
  factoryMaps : MapId → Factories
  servers : Nat → Server
  nextService : Nat
  shutdown : Shutdown

def Process.new : Process :=
  { nextEventId := 1
    requests := 0
    calls := fun _ => .idle
    pipes := fun _ => []
    replies := fun _ => []
    broker := Broker.new
    workers := fun _ => Worker.new
    routerFactories := fun _ => none
    factoryMaps := fun _ => []
    servers := fun _ => .absent
    nextService := 0
    shutdown := .running }

inductive ThreadAction where
  | request (info : ConnectionInfo) (service method payload : Bytes) (handler : Option Nat)
      (timeoutMs : Int64)
  | sendRequest (serialized : Bool)
  | connect (endpoint : Bytes)
  | bind (endpoint : Bytes) (factories : Nat)
  | unbind (endpoint : Bytes)
  | receive
  | insertFactories
  | add (closure : Nat)
  | registerService (info : ConnectionInfo) (name : Bytes) (svc : ServiceObject)
  | reply (info : ConnectionInfo) (eventId : UInt64) (payload : Bytes)
  | replyError (info : ConnectionInfo) (eventId : UInt64) (errorCode : Int32) (errorMessage : Bytes)
  | newServer (server : Nat)
  | registerFactory (factories : MapId) (name : Bytes) (factory : Factory)
  | serverBind (server : Nat) (endpoint : Bytes)
  | destroyServer (server : Nat)
  | nextUnbind
deriving DecidableEq

/-- What a socket callback reads: a frontend command of one thread, or the
frames of a message a peer sent. -/
inductive Input where
  | nothing
  | frontend (sender : Thread) (oracle : Oracle)
  | message (frames : List Frame)
deriving DecidableEq

inductive Action where
  | thread (thread : Thread) (action : ThreadAction)
  | loopTop
  | timers (now : UInt64)
  | poll (outcome : PollOutcome)
  | dispatch (input : Input)
  | flush
  | worker (index : Nat)
  /-- The last `manager_ptr` is released by the application thread. -/
  | release (thread : Nat)
  | joinBroker
  | joinWorkers
deriving DecidableEq

/-- The entries `router_service_factories::get` leads to. -/
def Process.factories (process : Process) (routerIndex : Nat) : Option Factories :=
  (process.routerFactories routerIndex).map process.factoryMaps

def Process.write (process : Process) (thread : Thread) (commands : List Command) : Process :=
  { process with
    pipes := Function.update process.pipes thread (process.pipes thread ++ commands) }

def Process.setCall (process : Process) (thread : Thread) (call : Call) : Process :=
  { process with calls := Function.update process.calls thread call }

def insertFactory (factories : Factories) (name : Bytes) (factory : Factory) : Factories :=
  (name, factory) :: factories.filter (fun entry => entry.1 ≠ name)

/-- `manager::bind` up to the wait for the reply. -/
def Process.startBind (process : Process) (thread : Thread) (endpoint : Bytes)
    (factories : MapId) : Process × List Event :=
  ((process.write thread [.bind endpoint]).setCall thread (.binding factories),
    [.bindCalled thread endpoint (process.factoryMaps factories)])

def Process.beginCall (cfg : Config) (process : Process) (thread : Thread) :
    ThreadAction → Option (Process × List Event)
  | .request info service method payload handler timeoutMs =>
    let ctrl : Controller := ⟨process.requests, process.nextEventId, handler, timeoutMs⟩
    some ({ process.setCall thread (.requesting info ctrl
              (requestFrames cfg.proto process.nextEventId service method payload)) with
            nextEventId := process.nextEventId + 1, requests := process.requests + 1 },
      [.fetched thread info ctrl])
  | .connect endpoint => some ((process.write thread [.connect endpoint]).setCall thread .connecting, [])
  | .bind endpoint factories => some (process.startBind thread endpoint (.user factories))
  | .unbind endpoint =>
    some ((process.write thread [.unbind endpoint]).setCall thread (.unbinding none), [])
  | .add closure => some (process.write thread [.runClosure closure], [.added thread closure])
  | .registerService info name svc => some (process.write thread [.registerSvc info name svc], [])
  | .reply info eventId payload =>
    some (process.write thread [.reply info (replyFrames cfg.proto eventId payload)], [])
  | .replyError info eventId errorCode errorMessage =>
    some (process.write thread
      [.reply info (replyErrorFrames cfg.proto eventId errorCode errorMessage)], [])
  | .newServer server =>
    match process.servers server with
    | .absent =>
      some ({ process with servers := Function.update process.servers server (.alive []) }, [])
    | _ => none
  | .registerFactory factories name factory =>
    some ({ process with
      factoryMaps := Function.update process.factoryMaps factories
        (insertFactory (process.factoryMaps factories) name factory) }, [])
  | .serverBind server endpoint =>
    match process.servers server with
    | .alive endpoints =>
      if endpoint ∈ endpoints then some (process, [])
      else
        some ({ process with
          servers := Function.update process.servers server
            (.alive (endpoints ++ [endpoint])) }.startBind thread endpoint (.server server))
    | _ => none
  | .destroyServer server =>
    match process.servers server with
    | .alive endpoints => some (process.setCall thread (.destroying server endpoints), [])
    | _ => none
  | .sendRequest _ => none
  | .receive => none
  | .insertFactories => none
  | .nextUnbind => none

/-- What a blocking call does with the reply. `connect` and `bind` interpret the
body as an index. `unbind` does not look at it; a reply of another kind never
reaches a thread in `unbind`. -/
def Process.acceptReply (process : Process) (thread : Thread) : Call → Reply → Option Process
  | .connecting, .socketIndex _ => some (process.setCall thread .idle)
  | .binding factories, .socketIndex routerIndex =>
    some (process.setCall thread (.inserting routerIndex factories))
  | .unbinding none, .unbound => some (process.setCall thread .idle)
  | .unbinding (some (server, remaining)), .unbound =>
    some (process.setCall thread (.destroying server remaining))
  | _, _ => none

def Process.continueCall (process : Process) (thread : Thread) :
    Call → ThreadAction → Option (Process × List Event)
  | .requesting info ctrl data, .sendRequest serialized =>
    if serialized then
      some ((process.write thread [.request info ctrl data]).setCall thread .idle,
        [.requested thread info ctrl])
    else some (process.setCall thread .idle, [])
  | .inserting routerIndex factories, .insertFactories =>
    some ({ process.setCall thread .idle with
        routerFactories := Function.update process.routerFactories routerIndex (some factories) },
      [.factoriesInserted thread routerIndex])
  | .destroying server (endpoint :: remaining), .nextUnbind =>
    some ((process.write thread [.unbind endpoint]).setCall thread
      (.unbinding (some (server, remaining))), [])
  | .destroying server [], .nextUnbind =>
    some ({ process.setCall thread .idle with
      servers := Function.update process.servers server .destroyed }, [.serverDestroyed server])
  | call, .receive =>
    match process.replies thread with
    | [] => none
    | body :: rest =>
      ({ process with replies := Function.update process.replies thread rest }.acceptReply
        thread call body).map (fun after => (after, [.received thread body]))
  | _, _ => none

def Process.threadStep (cfg : Config) (process : Process) (thread : Thread)
    (action : ThreadAction) : Option (Process × List Event) :=
  if process.shutdown = .running then
    match process.calls thread with
    | .idle => process.beginCall cfg thread action
    | call => process.continueCall thread call action
  else none

/-- Pushes to a worker queue or to the replies of a thread, or puts a message on a socket. -/
def Process.perform (process : Process) : Output → Process × List Event
  | .push index cmd =>
    ({ process with
        workers := Function.update process.workers index
          { process.workers index with queue := (process.workers index).queue ++ [cmd] } }, [])
  | .reply receiver body =>
    ({ process with
        replies := Function.update process.replies receiver (process.replies receiver ++ [body]) },
      [.replied receiver body])
  | .send info socket frames cause =>
    if process.broker.isClosed socket then
      let faulted := process.broker.fault (.deletedSocket socket)
      ({ process with broker := faulted.1 }, faulted.2)
    else (process, [.forwarded info frames cause])

def Process.setOutbox (process : Process) (outbox : List Output) : Process :=
  { process with broker := { process.broker with outbox := outbox } }

def Process.flush (process : Process) : Option (Process × List Event) :=
  match process.broker.phase, process.broker.outbox with
  | .faulted, _ => none
  | _, [] => none
  | _, output :: rest =>
    some ((process.setOutbox rest).perform output)

def queuedEvents (outbox : List Output) : List Event :=
  outbox.filterMap fun
    | .push index cmd => some (.queued index cmd)
    | _ => none

/-- The broker's part of a step; it goes on only after all effects were performed. -/
def Process.brokerStep (process : Process) (result : Broker × List Event) :
    Option (Process × List Event) :=
  some ({ process with broker := result.1 }, result.2 ++ queuedEvents result.1.outbox)

/-- One turn of the dispatch loop at index `i`. -/
def Process.dispatchAt (cfg : Config) (process : Process) (i : Nat) (input : Input) :
    Option (Process × List Event) :=
  let advanced := { process.broker with phase := .dispatch (i + 1) }
  match process.broker.reactor.slot i, input with
  | .finished, _ => process.brokerStep ({ process.broker with phase := .top }, [])
  | .quiet, _ => process.brokerStep (advanced, [])
  | .outOfRange, _ => process.brokerStep (advanced.fault .outOfRange)
  | .ready .frontend, .frontend sender oracle =>
    match process.pipes sender with
    | [] => none
    | cmd :: rest =>
      let result := advanced.handleCommand cfg oracle sender cmd
      some ({ process with pipes := Function.update process.pipes sender rest, broker := result.1 },
        .handled sender cmd :: (result.2 ++ queuedEvents result.1.outbox))
  | .ready (.dealer index), .message (frame :: frames) =>
    process.brokerStep (advanced.receive cfg (.dealer index) (frame :: frames))
  | .ready (.router index), .message (frame :: frames) =>
    process.brokerStep (advanced.receive cfg (.router index) (frame :: frames))
  | _, _ => none

/-- A worker takes the first command of its queue and executes it. The library
calls of the user code a command runs are steps of the worker's thread; the
worker goes on when they have returned. -/
def Process.workerStep (cfg : Config) (process : Process) (index : Nat) :
    Option (Process × List Event) :=
  let worker := process.workers index
  if index < cfg.workers ∧ worker.running ∧ process.calls (.worker index) = .idle then
    match worker.queue with
    | [] => none
    | cmd :: rest =>
      let result := { worker with queue := rest }.exec cfg process.factories index
        process.nextService cmd
      some ({ process.write (.worker index) result.writes with
          workers := Function.update process.workers index result.worker
          nextService := result.fresh },
        .popped index cmd :: result.events)
  else none

/-- `join_threads`: quit the broker and join it, then quit the workers and join them. -/
def Process.joinBroker (cfg : Config) (process : Process) : Option (Process × List Event) :=
  if process.shutdown = .joiningBroker ∧ process.broker.phase = .exited ∧
      process.broker.outbox = [] then
    some ({ process with
      shutdown := .joiningWorkers
      workers := fun index =>
        if index < cfg.workers then
          { process.workers index with queue := (process.workers index).queue ++ [.quitWorker] }
        else process.workers index },
      (List.range cfg.workers).map (fun index => .queued index .quitWorker))
  else none

def Process.joinWorkers (cfg : Config) (process : Process) : Option (Process × List Event) :=
  if process.shutdown = .joiningWorkers ∧
      (List.range cfg.workers).all (fun index => !(process.workers index).running) then
    some ({ process with shutdown := .destroyed }, [.destroyed])
  else none

def Process.release (process : Process) (thread : Nat) : Option (Process × List Event) :=
  if process.shutdown = .running ∧ process.calls (.app thread) = .idle then
    some ({ process.write (.app thread) [.quit] with shutdown := .joiningBroker },
      [.released (.app thread)])
  else none

def Process.step (cfg : Config) (process : Process) : Action → Option (Process × List Event)
  | .thread thread action => process.threadStep cfg thread action
  | .loopTop =>
    if process.broker.phase = .top ∧ process.broker.outbox = [] then
      process.brokerStep process.broker.loopTop
    else none
  | .timers now =>
    if process.broker.phase = .timers ∧ process.broker.outbox = [] then
      process.brokerStep (process.broker.runTimers cfg now)
    else none
  | .poll outcome =>
    if process.broker.phase = .poll ∧ process.broker.outbox = [] then
      process.brokerStep (process.broker.afterPoll outcome)
    else none
  | .dispatch input =>
    match process.broker.phase, process.broker.outbox with
    | .dispatch i, [] => process.dispatchAt cfg i input
    | _, _ => none
  | .flush => process.flush
  | .worker index => process.workerStep cfg index
  | .release thread => process.release thread
  | .joinBroker => process.joinBroker cfg
  | .joinWorkers => process.joinWorkers cfg

def machine (cfg : Config) : Machine Process Action Event := ⟨Process.new, Process.step cfg⟩

end Rpcz.ProcessModel
