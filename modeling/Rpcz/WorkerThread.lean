import Rpcz.RequestHandlers

/-! worker.cc: one worker thread, its queue, its pending map and its handlers. -/

namespace Rpcz.WorkerThread
open Message EventLog RequestHandlers

/-- `pending` is `remote_response_map_`. `running` is false once the loop of
`operator()` has ended. -/
structure Worker where
  queue : List WorkerCmd
  pending : UInt64 → Option Controller
  handlers : HandlerMap
  running : Bool

def Worker.new : Worker := ⟨[], fun _ => none, fun _ => none, true⟩

structure Result where
  worker : Worker
  fresh : Nat
  writes : List Command
  events : List Event

/-- The common part of `handle_timeout`, `handle_done_resp` and
`handle_error_resp`: look the event id up, run the controller, delete it and
erase the entry. -/
def Worker.complete (index fresh : Nat) (worker : Worker) (eventId : UInt64) (outcome : Outcome) :
    Result :=
  match worker.pending eventId with
  | none => ⟨worker, fresh, [], []⟩
  | some ctrl =>
    ⟨{ worker with pending := Function.update worker.pending eventId none }, fresh, [],
      [.completed index ctrl outcome, .deleted index ctrl]⟩

def Worker.startRpc (fresh : Nat) (worker : Worker) (ctrl : Controller) : Result :=
  ⟨{ worker with pending := Function.update worker.pending ctrl.eventId (some ctrl) }, fresh, [], []⟩

def Worker.handleTimeout (index fresh : Nat) (worker : Worker) (eventId : UInt64) : Result :=
  worker.complete index fresh eventId Outcome.timeout

/-- `handle_response`: with an error code it is an error, else a normal response. -/
def Worker.handleResponse (index fresh : Nat) (worker : Worker) (header : ResponseHeader)
    (payload : Bytes) : Result :=
  worker.complete index fresh header.getEventId (header.outcome payload)

def Worker.handleRequest (cfg : Config) (factories : Nat → Option Factories) (index fresh : Nat)
    (worker : Worker) (info : ConnectionInfo) (header : RequestHeader) (payload : Bytes) : Result :=
  let got := getHandler factories index fresh worker.handlers info
  let ran := got.1.handleRequest cfg header payload
  ⟨{ worker with handlers := got.2.handlers }, got.2.fresh, ran.1, got.2.events ++ ran.2⟩

def Worker.handleData (cfg : Config) (factories : Nat → Option Factories) (index fresh : Nat)
    (worker : Worker) (info : ConnectionInfo) (header payload : Bytes) : Result :=
  match cfg.proto.parseHeader header with
  | none => ⟨worker, fresh, [], []⟩
  | some parsed =>
    match parsed.reqHdr with
    | some reqHdr => worker.handleRequest cfg factories index fresh info reqHdr payload
    | none =>
      match parsed.respHdr with
      | some respHdr => worker.handleResponse index fresh respHdr payload
      | none => ⟨worker, fresh, [], []⟩

def Worker.registerService (factories : Nat → Option Factories) (index fresh : Nat)
    (worker : Worker) (info : ConnectionInfo) (name : Bytes) (svc : ServiceObject) : Result :=
  let got := getHandler factories index fresh worker.handlers info
  let registered := got.1.registerService name (.own svc)
  ⟨{ worker with handlers := Function.update got.2.handlers info (some registered.1) },
    got.2.fresh, [], got.2.events ++ registered.2.map .serviceDeleted⟩

/-- One turn of the loop in `operator()`. -/
def Worker.exec (cfg : Config) (factories : Nat → Option Factories) (index fresh : Nat)
    (worker : Worker) : WorkerCmd → Result
  | .quitWorker => ⟨{ worker with running := false }, fresh, [], []⟩
  | .runClosure closure => ⟨worker, fresh, [], [.closureRun index closure]⟩
  | .startRpc ctrl => worker.startRpc fresh ctrl
  | .handleData info header payload =>
    worker.handleData cfg factories index fresh info header payload
  | .handleTimeout eventId => worker.handleTimeout index fresh eventId
  | .registerSvc info name svc => worker.registerService factories index fresh info name svc

end Rpcz.WorkerThread
