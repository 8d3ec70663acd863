import Rpcz.EventLog

/-!
request_handler.cc, request_handler_map.hpp and cpp_service.cc. The entries of
a `std::map` are listed without their order, which nothing here depends on.
-/

namespace Rpcz.RequestHandlers
open Message EventLog

structure RequestHandler where
  info : ConnectionInfo
  serviceMap : List (Bytes × Service)
deriving DecidableEq

namespace RequestHandler

def find (handler : RequestHandler) (name : Bytes) : Option Service :=
  handler.serviceMap.lookup name

/-- The second component lists the services that were deleted. -/
def unregisterService (handler : RequestHandler) (name : Bytes) : RequestHandler × List Service :=
  match handler.find name with
  | none => (handler, [])
  | some svc =>
    ({ handler with serviceMap := handler.serviceMap.filter (fun entry => entry.1 ≠ name) }, [svc])

def registerService (handler : RequestHandler) (name : Bytes) (svc : Service) :
    RequestHandler × List Service :=
  ({ handler with serviceMap := (name, svc) :: (handler.unregisterService name).1.serviceMap },
    (handler.unregisterService name).2)

/-- `create_and_register_service` for every entry of the factory map. -/
def createAndRegister (handler : RequestHandler) (fresh : Nat) : Factories → RequestHandler
  | [] => handler
  | (name, factory) :: rest =>
    createAndRegister (handler.registerService name (factory.create fresh)).1 (fresh + 1) rest

/-- The entries `create_services` goes through. Only a router connection creates
services from factories, and none while its router index has no factories. -/
def factoriesOf (factories : Nat → Option Factories) (info : ConnectionInfo) : Factories :=
  if info.isRouter then (factories info.index).getD [] else []

def new (factories : Nat → Option Factories) (fresh : Nat) (info : ConnectionInfo) :
    RequestHandler :=
  createAndRegister ⟨info, []⟩ fresh (factoriesOf factories info)

end RequestHandler

/-- `handler_map_` of one worker. -/
abbrev HandlerMap := ConnectionInfo → Option RequestHandler

/-- What running part of a command does to the handler map of its worker and to
the rest of the process. -/
structure Effect where
  handlers : HandlerMap
  fresh : Nat
  /-- Commands the worker thread writes to its frontend socket. -/
  writes : List Command
  events : List Event

/-- `request_handler_map::get_handler`, which keeps the handlers it creates. -/
def getHandler (factories : Nat → Option Factories) (worker fresh : Nat) (handlers : HandlerMap)
    (info : ConnectionInfo) : RequestHandler × Effect :=
  match handlers info with
  | some handler => (handler, ⟨handlers, fresh, [], []⟩)
  | none =>
    let handler := RequestHandler.new factories fresh info
    (handler, ⟨Function.update handlers info (some handler), fresh + (RequestHandler.factoriesOf factories info).length,
      [], [.handlerCreated worker info handler.serviceMap]⟩)

def ascii (text : String) : Bytes :=
  text.toList.map (fun letter => UInt8.ofNat letter.toNat)

/-- `dispatch_request` of the service. A `cpp_service` looks up the method and
parses the payload; the code of another `iservice` belongs to the application. -/
def dispatchRequest (cfg : Config) (info : ConnectionInfo) (eventId : UInt64)
    (svc : ServiceObject) (method payload : Bytes) : List Command × List Event :=
  match cfg.descriptor svc.cls with
  | none => ([], [])
  | some findMethodByName =>
    match findMethodByName method with
    | none =>
      ([.reply info (replyErrorFrames cfg.proto eventId ErrorCode.NO_SUCH_METHOD [])], [])
    | some descriptor =>
      if cfg.requestParses descriptor payload then
        ([], [.called info eventId svc descriptor payload])
      else ([.reply info (replyErrorFrames cfg.proto eventId ErrorCode.INVALID_MESSAGE [])], [])

/-- `request_handler::handle_request`. -/
def RequestHandler.handleRequest (cfg : Config) (handler : RequestHandler) (header : RequestHeader)
    (payload : Bytes) : List Command × List Event :=
  match handler.find header.getService with
  | none =>
    ([.reply handler.info (replyErrorFrames cfg.proto header.getEventId ErrorCode.NO_SUCH_SERVICE
        (ascii "Invalid service: " ++ header.getService))],
      [.noSuchService handler.info header.getEventId header.getService])
  | some svc =>
    let ran := dispatchRequest cfg handler.info header.getEventId svc.target header.getMethod payload
    (ran.1, .dispatched handler.info header.getEventId header.getService svc header.getMethod payload
      :: ran.2)

end Rpcz.RequestHandlers
