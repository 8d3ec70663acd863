import Mathlib.Algebra.Group.Nat.Defs
import Mathlib.Logic.Function.Basic

/-!
The data the parties exchange: frames, connection_info with its hash, the
protocol headers of rpcz.proto, the commands of threads to the broker
(internal_commands.hpp) and of the broker to the workers (worker_cmd.hpp).
-/

namespace Rpcz.Message

abbrev Bytes := List UInt8

instance : LawfulBEq Bytes := inferInstance

abbrev Frame := Bytes

/-- The threads of the application, and the worker threads, which run user code too. -/
inductive Thread where
  | app (index : Nat)
  | worker (index : Nat)
deriving DecidableEq, Repr

/-- `sender` is the zmq identity of the peer; it is empty for the dealer type. -/
structure ConnectionInfo where
  isRouter : Bool
  index : Nat
  sender : Bytes
deriving DecidableEq, Repr

def ConnectionInfo.router (routerIndex : Nat) (sender : Bytes) : ConnectionInfo :=
  ⟨true, routerIndex, sender⟩

def ConnectionInfo.dealer (dealerIndex : Nat) : ConnectionInfo :=
  ⟨false, dealerIndex, []⟩

/-- `boost::hash_combine` at the three field types of `connection_info`. -/
structure HashCombine where
  bool : UInt64 → Bool → UInt64
  uint64 : UInt64 → UInt64 → UInt64
  string : UInt64 → Bytes → UInt64

/-- connection_info_hash.hpp. -/
def hashValue (combine : HashCombine) (info : ConnectionInfo) : UInt64 :=
  combine.string (combine.uint64 (combine.bool 0 info.isRouter) (UInt64.ofNat info.index))
    info.sender

/-- The optional fields of `rpc_request_header`. -/
structure RequestHeader where
  eventId : Option UInt64
  service : Option Bytes
  method : Option Bytes
deriving DecidableEq, Repr

/-- The optional fields of `rpc_response_header`. -/
structure ResponseHeader where
  errorCode : Option Int32
  errorStr : Option Bytes
  eventId : Option UInt64
deriving DecidableEq, Repr

structure RpcHeader where
  reqHdr : Option RequestHeader
  respHdr : Option ResponseHeader
deriving DecidableEq, Repr

/-! An accessor of an unset optional field answers the default of its type. -/

def RequestHeader.getEventId (header : RequestHeader) : UInt64 := header.eventId.getD 0
def RequestHeader.getService (header : RequestHeader) : Bytes := header.service.getD []
def RequestHeader.getMethod (header : RequestHeader) : Bytes := header.method.getD []
def ResponseHeader.getErrorStr (header : ResponseHeader) : Bytes := header.errorStr.getD []
def ResponseHeader.getEventId (header : ResponseHeader) : UInt64 := header.eventId.getD 0

/-- The generated code of rpcz.proto: `SerializeToArray` and `ParseFromArray` of `rpc_header`. -/
structure Protobuf where
  serializeHeader : RpcHeader → Bytes
  parseHeader : Bytes → Option RpcHeader

namespace ErrorCode
def NO_SUCH_SERVICE : Int32 := -2
def NO_SUCH_METHOD : Int32 := -3
def INVALID_MESSAGE : Int32 := -4
def METHOD_NOT_IMPLEMENTED : Int32 := -5
def TIMEOUT_EXPIRED : Int32 := -6
end ErrorCode

/-- An `iservice` object. The class decides what `dispatch_request` does. -/
structure ServiceObject where
  id : Nat
  cls : Nat
deriving DecidableEq, Repr

/-- What a `service_map` entry points to: an object of its own, or the
`mono_state_service` wrapper of a singleton. -/
inductive Service where
  | own (object : ServiceObject)
  | mono (wrapper : Nat) (service : ServiceObject)
deriving DecidableEq, Repr

/-- The object whose `dispatch_request` runs in the end. -/
def Service.target : Service → ServiceObject
  | .own object => object
  | .mono _ service => service

/-- `singleton_service_factory` and `default_service_factory`. -/
inductive Factory where
  | singleton (service : ServiceObject)
  | perConnection (cls : Nat)
deriving DecidableEq, Repr

/-- `service_factory::create`; `fresh` is the address of the new object. -/
def Factory.create (fresh : Nat) : Factory → Service
  | .singleton service => .mono fresh service
  | .perConnection cls => .own ⟨fresh, cls⟩

/-- `rpc_controller`. `serial` tells apart the objects allocated in a run, and
`handler` is absent when the response handler is empty. -/
structure Controller where
  serial : Nat
  eventId : UInt64
  handler : Option Nat
  timeoutMs : Int64
deriving DecidableEq

/-- Commands to the broker (`c2b`). -/
inductive Command where
  | request (info : ConnectionInfo) (ctrl : Controller) (data : List Frame)
  | connect (endpoint : Bytes)
  | bind (endpoint : Bytes)
  | unbind (endpoint : Bytes)
  | reply (info : ConnectionInfo) (data : List Frame)
  | runClosure (closure : Nat)
  | registerSvc (info : ConnectionInfo) (name : Bytes) (svc : ServiceObject)
  | quit
deriving DecidableEq

/-- Commands of the broker to a worker (`b2w`). -/
inductive WorkerCmd where
  | runClosure (closure : Nat)
  | startRpc (ctrl : Controller)
  | handleData (info : ConnectionInfo) (header payload : Bytes)
  | handleTimeout (eventId : UInt64)
  | registerSvc (info : ConnectionInfo) (name : Bytes) (svc : ServiceObject)
  | quitWorker
deriving DecidableEq

/-- The body of the broker's answer on the frontend socket: a socket index, or
the empty message that ends an unbind. -/
inductive Reply where
  | socketIndex (index : Nat)
  | unbound
deriving DecidableEq, Repr

inductive Outcome where
  | done (data : Bytes)
  | error (code : Int32) (text : Bytes)
deriving DecidableEq, Repr

/-- `rpc_controller::handle_timeout`. -/
def Outcome.timeout : Outcome := .error ErrorCode.TIMEOUT_EXPIRED []

/-- What the library takes from outside: the number of worker threads, boost's
hash, the generated protobuf code and the descriptors of the services. -/
structure Config where
  workers : Nat
  workers_pos : 0 < workers
  combine : HashCombine
  proto : Protobuf
  /-- `FindMethodByName` of a `cpp_service` class; no descriptor for another `iservice`. -/
  descriptor : Nat → Option (Bytes → Option Nat)
  /-- Whether `ParseFromArray` succeeds at the request type of a method. -/
  requestParses : Nat → Bytes → Bool

/-- `broker_thread::get_worker_index`. -/
def Config.getWorkerIndex (cfg : Config) (info : ConnectionInfo) : Nat :=
  (hashValue cfg.combine info).toNat % cfg.workers

theorem Config.getWorkerIndex_lt (cfg : Config) (info : ConnectionInfo) :
    cfg.getWorkerIndex info < cfg.workers :=
  Nat.mod_lt _ cfg.workers_pos

/-- The header of a response, where `worker::handle_data` reads one: a header
that carries a request part too is a request. -/
def Config.responseHeader (cfg : Config) (header : Bytes) : Option ResponseHeader :=
  match cfg.proto.parseHeader header with
  | none => none
  | some parsed =>
    match parsed.reqHdr with
    | some _ => none
    | none => parsed.respHdr

/-- The event id a response carries. -/
def Config.responseId (cfg : Config) (header : Bytes) : Option UInt64 :=
  (cfg.responseHeader header).map ResponseHeader.getEventId

/-- What `worker::handle_response` hands to the controller. -/
def ResponseHeader.outcome (header : ResponseHeader) (payload : Bytes) : Outcome :=
  match header.errorCode with
  | some code => .error code header.getErrorStr
  | none => .done payload

/-- The data frames of `connection::request`. -/
def requestFrames (proto : Protobuf) (eventId : UInt64) (service method payload : Bytes) :
    List Frame :=
  [proto.serializeHeader ⟨some ⟨some eventId, some service, some method⟩, none⟩, payload]

/-- The data frames of `connection::reply`. -/
def replyFrames (proto : Protobuf) (eventId : UInt64) (payload : Bytes) : List Frame :=
  [proto.serializeHeader ⟨none, some ⟨none, none, some eventId⟩⟩, payload]

/-- The data frames of `connection::reply_error`; an empty text is not set. -/
def replyErrorFrames (proto : Protobuf) (eventId : UInt64) (errorCode : Int32)
    (errorMessage : Bytes) : List Frame :=
  [proto.serializeHeader ⟨none, some ⟨some errorCode,
    if errorMessage = [] then none else some errorMessage, some eventId⟩⟩, []]

end Rpcz.Message
