import Rpcz.Message

/-! The observable events of one process, in the order in which they happen. -/

namespace Rpcz.EventLog
open Message

/-- Uses of memory or of a library that the C++ code has no defined answer to. -/
inductive Fault where
  | deletedSocket (socket : Nat)
  | illegalIndex (info : ConnectionInfo)
  | outOfRange
  | zmqError
  | checkFailed
deriving DecidableEq

/-- The identity of a `service_factory_map`: a server owns one, and a direct
caller of `manager::bind` brings its own. -/
inductive MapId where
  | server (index : Nat)
  | user (index : Nat)
deriving DecidableEq

abbrev Factories := List (Bytes × Factory)

inductive Event where
  /-- `get_next_event_id` inside `connection::request`. -/
  | fetched (thread : Thread) (info : ConnectionInfo) (ctrl : Controller)
  /-- `connection::request` returned. -/
  | requested (thread : Thread) (info : ConnectionInfo) (ctrl : Controller)
  /-- `manager::add` returned. -/
  | added (thread : Thread) (closure : Nat)
  | bindCalled (thread : Thread) (endpoint : Bytes) (factories : Factories)
  | factoriesInserted (thread : Thread) (routerIndex : Nat)
  | received (thread : Thread) (body : Reply)
  | serverDestroyed (server : Nat)
  /-- The broker read a command of the thread. -/
  | handled (sender : Thread) (cmd : Command)
  | routerCreated (sender : Thread) (endpoint : Bytes) (index : Nat)
  /-- The broker put a message on a socket; `cause` is the request it carries. -/
  | forwarded (info : ConnectionInfo) (frames : List Frame) (cause : Option Controller)
  /-- The broker read a data message from a socket. -/
  | arrived (info : ConnectionInfo) (header payload : Bytes)
  | timerFired (eventId : UInt64) (workerIndex : Nat)
  | replied (receiver : Thread) (body : Reply)
  | socketClosed (socket : Nat)
  | faulted (fault : Fault)
  /-- The handler the broker ran ends in a push of the command to the worker;
  for `kQuitWorker`, `join_all` pushed it. -/
  | queued (worker : Nat) (cmd : WorkerCmd)
  /-- A worker took the command from its queue. -/
  | popped (worker : Nat) (cmd : WorkerCmd)
  /-- `handle_response`, `handle_error` or `handle_timeout` of the controller,
  which calls the response handler if there is one. -/
  | completed (worker : Nat) (ctrl : Controller) (outcome : Outcome)
  | deleted (worker : Nat) (ctrl : Controller)
  | closureRun (worker : Nat) (closure : Nat)
  | handlerCreated (worker : Nat) (info : ConnectionInfo) (services : List (Bytes × Service))
  | serviceDeleted (service : Service)
  | noSuchService (info : ConnectionInfo) (eventId : UInt64) (name : Bytes)
  /-- `dispatch_request` on the service registered under `name`. -/
  | dispatched (info : ConnectionInfo) (eventId : UInt64) (name : Bytes) (service : Service)
      (method payload : Bytes)
  /-- `call_method` with the request parsed from the payload. -/
  | called (info : ConnectionInfo) (eventId : UInt64) (service : ServiceObject) (method : Nat)
      (payload : Bytes)
  | released (thread : Thread)
  | destroyed
deriving DecidableEq

end Rpcz.EventLog
