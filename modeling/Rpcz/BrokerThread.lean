import Rpcz.EventLog
import Rpcz.ReactorLoop

/-!
broker_thread.cc on top of the reactor. The broker's effects on other threads
(commands pushed to worker queues, messages put on sockets, replies on the
frontend socket) are collected in `outbox` in program order; the process
performs them one at a time, so other threads run between any two of them.
-/

namespace Rpcz.BrokerThread
open Message EventLog ReactorLoop

inductive SocketCallback where
  | frontend
  | dealer (index : Nat)
  | router (index : Nat)
deriving DecidableEq

/-- The arguments bound in a `handle_timeout` closure. -/
structure TimeoutClosure where
  eventId : UInt64
  workerIndex : Nat
deriving DecidableEq

inductive Output where
  | push (worker : Nat) (cmd : WorkerCmd)
  | send (info : ConnectionInfo) (socket : Nat) (frames : List Frame) (cause : Option Controller)
  | reply (receiver : Thread) (body : Reply)
deriving DecidableEq

/-- Where the broker thread stands in `reactor::loop`. -/
inductive Phase where
  | top
  | timers
  | poll
  | dispatch (index : Nat)
  | exited
  | faulted
deriving DecidableEq

/-- Index 0 of `dealerSockets` and `routerSockets` is reserved. The deletion
callback `handle_socket_deleted` is named by the sender it answers. -/
structure Broker where
  reactor : Reactor SocketCallback Thread TimeoutClosure
  dealerSockets : List (Option Nat)
  routerSockets : List (Option Nat)
  bindMap : Bytes → Option Nat
  nextSocket : Nat
  phase : Phase
  outbox : List Output

def Broker.new : Broker :=
  { reactor := Reactor.addSocket ⟨false, true, [], [], [], [], []⟩ 0 .frontend
    dealerSockets := [none]
    routerSockets := [none]
    bindMap := fun _ => none
    nextSocket := 1
    phase := .top
    outbox := [] }

/-- What the environment answers while a command is handled: whether zmq accepts
the endpoint, the clock, and `rand()`. -/
structure Oracle where
  accepts : Bool
  now : UInt64
  random : Nat
deriving DecidableEq

namespace Broker

/-- The C++ code has no defined continuation; the model stops the broker. -/
def fault (broker : Broker) (fault : Fault) : Broker × List Event :=
  ({ broker with phase := .faulted }, [.faulted fault])

def emit (broker : Broker) (outputs : List Output) : Broker :=
  { broker with outbox := broker.outbox ++ outputs }

/-- `is_dealer_index_legal` and `is_router_index_legal`. -/
def isIndexLegal (sockets : List (Option Nat)) (index : Nat) : Bool :=
  0 < index && index < sockets.length

def isConnectionInfoLegal (broker : Broker) (info : ConnectionInfo) : Bool :=
  if info.isRouter then isIndexLegal broker.routerSockets info.index
  else isIndexLegal broker.dealerSockets info.index

/-- The socket `forward_to` picks: `router_sockets_[index]` or `dealer_sockets_[index]`. -/
def socketOf (broker : Broker) (info : ConnectionInfo) : Option Nat :=
  if info.isRouter then (broker.routerSockets[info.index]?).join
  else (broker.dealerSockets[info.index]?).join

/-- The frames `forward_to` puts on the socket. -/
def wireFrames (info : ConnectionInfo) (data : List Frame) : List Frame :=
  if info.isRouter then info.sender :: [] :: data else [] :: data

def forwardTo (broker : Broker) (info : ConnectionInfo) (data : List Frame)
    (cause : Option Controller) : Broker × List Event :=
  match broker.socketOf info with
  | none => broker.fault (.illegalIndex info)
  | some socket => (broker.emit [.send info socket (wireFrames info data) cause], [])

/-- The dealer socket is recorded before `connect` can throw. -/
def handleConnectCommand (broker : Broker) (oracle : Oracle) (sender : Thread) :
    Broker × List Event :=
  let socket := broker.nextSocket
  let dealerIndex := broker.dealerSockets.length
  let recorded := { broker with
    dealerSockets := broker.dealerSockets ++ [some socket], nextSocket := socket + 1 }
  if oracle.accepts then
    ({ recorded with reactor := broker.reactor.addSocket socket (.dealer dealerIndex) }.emit
      [.reply sender (.socketIndex dealerIndex)], [])
  else recorded.fault .zmqError

def handleBindCommand (broker : Broker) (oracle : Oracle) (sender : Thread) (endpoint : Bytes) :
    Broker × List Event :=
  let socket := broker.nextSocket
  let routerIndex := broker.routerSockets.length
  if oracle.accepts then
    ({ broker with
        reactor := broker.reactor.addSocket socket (.router routerIndex)
        routerSockets := broker.routerSockets ++ [some socket]
        bindMap := Function.update broker.bindMap endpoint (some socket)
        nextSocket := socket + 1 }.emit [.reply sender (.socketIndex routerIndex)],
      [.routerCreated sender endpoint routerIndex])
  else { broker with nextSocket := socket + 1 }.fault .zmqError

/-- An endpoint that is not in `bind_map_` is ignored. -/
def handleUnbindCommand (broker : Broker) (sender : Thread) (endpoint : Bytes) :
    Broker × List Event :=
  match broker.bindMap endpoint with
  | none => (broker, [])
  | some socket =>
    ({ broker with
        reactor := broker.reactor.delSocket socket sender
        bindMap := Function.update broker.bindMap endpoint none }, [])

/-- `send_request`: register the timer, forward the request, then let the worker
start the rpc. -/
def sendRequest (cfg : Config) (broker : Broker) (oracle : Oracle) (info : ConnectionInfo)
    (ctrl : Controller) (data : List Frame) : Broker × List Event :=
  let timed : Broker :=
    if ctrl.timeoutMs = -1 then broker
    else { broker with
      reactor := broker.reactor.runClosureAt (oracle.now + ctrl.timeoutMs.toUInt64)
        ⟨ctrl.eventId, cfg.getWorkerIndex info⟩ }
  match timed.socketOf info with
  | none => timed.fault (.illegalIndex info)
  | some socket =>
    (timed.emit [.send info socket (wireFrames info data) (some ctrl),
      .push (cfg.getWorkerIndex info) (.startRpc ctrl)], [])

/-- The commands of `handle_frontend_socket`. -/
def handleCommand (cfg : Config) (broker : Broker) (oracle : Oracle) (sender : Thread) :
    Command → Broker × List Event
  | .quit => ({ broker with reactor := broker.reactor.setShouldQuit }, [])
  | .connect _ => broker.handleConnectCommand oracle sender
  | .bind endpoint => broker.handleBindCommand oracle sender endpoint
  | .unbind endpoint => broker.handleUnbindCommand sender endpoint
  | .request info ctrl data => broker.sendRequest cfg oracle info ctrl data
  | .reply info data => broker.forwardTo info data none
  | .runClosure closure =>
    (broker.emit [.push (oracle.random % cfg.workers) (.runClosure closure)], [])
  | .registerSvc info name svc =>
    (broker.emit [.push (cfg.getWorkerIndex info) (.registerSvc info name svc)], [])

/-- `handle_socket` on the frames after the sender: an empty frame, the header
and at most one payload frame that is used. -/
def handleSocket (cfg : Config) (broker : Broker) (info : ConnectionInfo) :
    List Frame → Broker × List Event
  | [] :: header :: rest =>
    (broker.emit [.push (cfg.getWorkerIndex info) (.handleData info header (rest.headD []))],
      [.arrived info header (rest.headD [])])
  | _ => (broker, [])

/-- `handle_router_socket` reads the sender first; a message of one frame is dropped. -/
def handleRouterSocket (cfg : Config) (broker : Broker) (routerIndex : Nat) :
    List Frame → Broker × List Event
  | sender :: next :: rest => broker.handleSocket cfg (.router routerIndex sender) (next :: rest)
  | _ => (broker, [])

def handleDealerSocket (cfg : Config) (broker : Broker) (dealerIndex : Nat)
    (frames : List Frame) : Broker × List Event :=
  broker.handleSocket cfg (.dealer dealerIndex) frames

def isClosed (broker : Broker) (socket : Nat) : Bool :=
  broker.reactor.closed.any (fun pair => pair.1 = socket)

def receive (cfg : Config) (broker : Broker) (callback : SocketCallback) (frames : List Frame) :
    Broker × List Event :=
  match callback with
  | .frontend => broker.fault .outOfRange
  | .dealer index =>
    match broker.socketOf (.dealer index) with
    | none => broker.fault (.illegalIndex (.dealer index))
    | some socket =>
      if broker.isClosed socket then broker.fault (.deletedSocket socket)
      else broker.handleDealerSocket cfg index frames
  | .router index =>
    match broker.socketOf (.router index []) with
    | none => broker.fault (.illegalIndex (.router index []))
    | some socket =>
      if broker.isClosed socket then broker.fault (.deletedSocket socket)
      else broker.handleRouterSocket cfg index frames

/-- The head of the loop: leave it, or delete the marked sockets and answer
their unbinds. -/
def loopTop (broker : Broker) : Broker × List Event :=
  if broker.reactor.shouldQuit then ({ broker with phase := .exited }, [])
  else if broker.reactor.isDirty then
    match broker.reactor.rebuildPollItems with
    | none => broker.fault .outOfRange
    | some (reactor, ran) =>
      ({ broker with reactor := reactor, phase := .timers }.emit
          (ran.map (fun sender => .reply sender .unbound)),
        (reactor.closed.drop broker.reactor.closed.length).map (fun pair => .socketClosed pair.1))
  else ({ broker with phase := .timers }, [])

/-- `process_closure_run_map` with `broker_thread::handle_timeout` as closures. -/
def runTimers (cfg : Config) (broker : Broker) (now : UInt64) : Broker × List Event :=
  let processed := broker.reactor.processClosureRunMap now
  ({ broker with reactor := processed.1, phase := .poll }.emit
      (processed.2.map (fun (closure : TimeoutClosure) =>
        .push (closure.workerIndex % cfg.workers) (.handleTimeout closure.eventId))),
    processed.2.map (fun (closure : TimeoutClosure) =>
      .timerFired closure.eventId closure.workerIndex))

/-- `ETERM` ends the loop, `EFAULT` fails a check, and after any other error the
loop goes on. -/
def afterPoll (broker : Broker) : PollOutcome → Broker × List Event
  | .ready flags =>
    ({ broker with reactor := broker.reactor.setRevents flags, phase := .dispatch 0 }, [])
  | .error => ({ broker with phase := .dispatch 0 }, [])
  | .eterm => ({ broker with phase := .exited }, [])
  | .efault => broker.fault .checkFailed

end Broker

end Rpcz.BrokerThread
