import Rpcz.Completion
import Rpcz.ConnectionHome

/-!
What a worker does with a request: it looks up the service and either answers
with an error of its own or hands the request to the service. What it answers
is written in what happened, and headers read back as they were written.
-/

namespace Rpcz.Dispatching
open Automaton Message EventLog RequestHandlers WorkerThread BrokerThread ProcessModel Moves History
  EventIds RequestLog HandlerCache ConnectionHome Completion

structure Request where
  info : ConnectionInfo
  eventId : UInt64
  service : Bytes
  method : Bytes
  payload : Bytes
deriving DecidableEq

structure Response where
  info : ConnectionInfo
  eventId : UInt64
  outcome : Outcome
deriving DecidableEq

/-- The data frames of `connection::reply` or of `connection::reply_error`. -/
def answerFrames (proto : Protobuf) (eventId : UInt64) : Outcome → List Frame
  | .done payload => replyFrames proto eventId payload
  | .error code text => replyErrorFrames proto eventId code text

def Response.command (proto : Protobuf) (response : Response) : Command :=
  .reply response.info (answerFrames proto response.eventId response.outcome)

/-- The error the library answers to a request it does not hand to a method. -/
def refusal (cfg : Config) : Event → Option Response
  | .noSuchService info eventId name =>
    some ⟨info, eventId, .error ErrorCode.NO_SUCH_SERVICE (ascii "Invalid service: " ++ name)⟩
  | .dispatched info eventId _ svc method payload =>
    match cfg.descriptor svc.target.cls with
    | none => none
    | some findMethodByName =>
      match findMethodByName method with
      | none => some ⟨info, eventId, .error ErrorCode.NO_SUCH_METHOD []⟩
      | some descriptor =>
        if cfg.requestParses descriptor payload then none
        else some ⟨info, eventId, .error ErrorCode.INVALID_MESSAGE []⟩
  | _ => none

def requestIn (cfg : Config) (header : Bytes) : Option RequestHeader :=
  (cfg.proto.parseHeader header).bind RpcHeader.reqHdr

def requestData (cfg : Config) : WorkerCmd → Option Request
  | .handleData info header payload =>
    (requestIn cfg header).map fun request =>
      ⟨info, request.getEventId, request.getService, request.getMethod, payload⟩
  | _ => none

/-- What happens to a request for which the handler finds `found`. -/
def handling (cfg : Config) (request : Request) : Option Service → List Event
  | none => [.noSuchService request.info request.eventId request.service]
  | some svc =>
    .dispatched request.info request.eventId request.service svc request.method request.payload ::
      (dispatchRequest cfg request.info request.eventId svc.target request.method request.payload).2

def isHandling : Event → Bool
  | .noSuchService .. | .dispatched .. | .called .. => true
  | _ => false

theorem refusal_isHandling {cfg : Config} {event : Event} {response : Response}
    (refused : refusal cfg event = some response) : isHandling event = true := by
  cases event <;> first | rfl | cases refused

section Headers
variable {cfg : Config}
  (lossless : ∀ header, cfg.proto.parseHeader (cfg.proto.serializeHeader header) = some header)
include lossless

theorem answer_readable (eventId : UInt64) (outcome : Outcome) :
    ∃ header payload response, answerFrames cfg.proto eventId outcome = [header, payload] ∧
      cfg.responseHeader header = some response ∧ response.getEventId = eventId ∧
      response.outcome payload = outcome ∧ requestIn cfg header = none := by
  cases outcome with
  | done payload =>
    refine ⟨_, payload, ⟨none, none, some eventId⟩, rfl, ?_, rfl, rfl, ?_⟩
    · simp [Config.responseHeader, lossless]
    · simp [requestIn, lossless]
  | error code text =>
    refine ⟨_, [], ⟨some code, if text = [] then none else some text, some eventId⟩, rfl, ?_, rfl,
      ?_, ?_⟩
    · simp [Config.responseHeader, lossless]
    · by_cases empty : text = [] <;> simp [ResponseHeader.outcome, ResponseHeader.getErrorStr, empty]
    · simp [requestIn, lossless]

theorem request_readable (eventId : UInt64) (service method payload : Bytes) :
    ∃ header request, requestFrames cfg.proto eventId service method payload = [header, payload] ∧
      requestIn cfg header = some request ∧ request.getEventId = eventId ∧
      request.getService = service ∧ request.getMethod = method ∧
      cfg.responseHeader header = none := by
  refine ⟨_, ⟨some eventId, some service, some method⟩, rfl, ?_, rfl, rfl, rfl, ?_⟩
  · simp [requestIn, lossless]
  · simp [Config.responseHeader, lossless]

end Headers

/-! ## One command -/

section Command
variable {cfg : Config} {factories : Nat → Option Factories} {index fresh : Nat} {worker : Worker}

theorem dispatchRequest_written (cfg : Config) (request : Request) (svc : Service) :
    (dispatchRequest cfg request.info request.eventId svc.target request.method request.payload).1 =
      ((handling cfg request (some svc)).filterMap (refusal cfg)).map (Response.command cfg.proto) := by
  unfold handling dispatchRequest
  cases known : cfg.descriptor svc.target.cls with
  | none => simp [refusal, known]
  | some findMethodByName =>
    cases found : findMethodByName request.method with
    | none => simp [refusal, known, found, Response.command, answerFrames]
    | some descriptor =>
      by_cases parses : cfg.requestParses descriptor request.payload = true
      · simp [refusal, known, found, parses]
      · simp [refusal, known, found, parses, Response.command, answerFrames]

theorem getHandler_silent (handlers : HandlerMap) (info : ConnectionInfo) :
    ∀ event ∈ (getHandler factories index fresh handlers info).2.events,
      isHandling event = false ∧ refusal cfg event = none := by
  intro event member
  rcases getHandler_cases factories index fresh handlers info with ⟨_, _, none⟩ | ⟨_, _, _, one⟩
  · rw [none] at member
    cases member
  · rw [one, List.mem_singleton] at member
    subst member
    exact ⟨rfl, rfl⟩

theorem complete_unhandled (eventId : UInt64) (outcome : Outcome) :
    (worker.complete index fresh eventId outcome).writes = [] ∧
      ∀ event ∈ (worker.complete index fresh eventId outcome).events,
        isHandling event = false ∧ refusal cfg event = none := by
  unfold Worker.complete
  split
  · exact ⟨rfl, by simp⟩
  · exact ⟨rfl, by simp [isHandling, refusal]⟩

theorem exec_unhandled (factories : Nat → Option Factories) (fresh : Nat) {cmd : WorkerCmd} (plain : requestData cfg cmd = none) :
    (worker.exec cfg factories index fresh cmd).writes = [] ∧
      ∀ event ∈ (worker.exec cfg factories index fresh cmd).events,
        isHandling event = false ∧ refusal cfg event = none := by
  cases cmd with
  | quitWorker | startRpc => exact ⟨rfl, by simp [Worker.exec, Worker.startRpc]⟩
  | runClosure closure => exact ⟨rfl, by simp [Worker.exec, isHandling, refusal]⟩
  | handleTimeout eventId => exact complete_unhandled _ _
  | registerSvc info name svc =>
    refine ⟨rfl, fun event member => ?_⟩
    rcases List.mem_append.mp member with got | removed
    · exact getHandler_silent _ _ event got
    · obtain ⟨service, _, rfl⟩ := List.mem_map.mp removed
      exact ⟨rfl, rfl⟩
  | handleData info header payload =>
    simp only [requestData, Option.map_eq_none_iff, requestIn] at plain
    simp only [Worker.exec, Worker.handleData]
    split
    · exact ⟨rfl, by simp⟩
    · next parsed readable =>
      simp only [readable, Option.bind_some] at plain
      simp only [plain]
      split
      · exact complete_unhandled _ _
      · exact ⟨rfl, by simp⟩

theorem exec_handles (factories : Nat → Option Factories) (fresh : Nat) {events : List Event}
    (cached : Cached index events worker.handlers) {cmd : WorkerCmd} {request : Request} (carries : requestData cfg cmd = some request) :
    ∃ created, (∀ event ∈ created, isHandling event = false ∧ refusal cfg event = none) ∧
      (worker.exec cfg factories index fresh cmd).events = created ++ handling cfg request
        (lookup (worker.exec cfg factories index fresh cmd).worker request.info request.service) ∧
      (worker.exec cfg factories index fresh cmd).writes =
        ((handling cfg request (lookup (worker.exec cfg factories index fresh cmd).worker
          request.info request.service)).filterMap (refusal cfg)).map (Response.command cfg.proto) := by
  cases cmd with
  | quitWorker | startRpc | runClosure | handleTimeout | registerSvc => cases carries
  | handleData info header payload =>
    obtain ⟨part, inside, rfl⟩ := Option.map_eq_some_iff.mp carries
    obtain ⟨parsed, readable, isRequest⟩ := Option.bind_eq_some_iff.mp inside
    obtain ⟨kept, held⟩ := getHandler_cached factories fresh cached info
    have own := (kept info _ held).1
    have ran : worker.exec cfg factories index fresh (.handleData info header payload) =
        worker.handleRequest cfg factories index fresh info part payload := by
      simp only [Worker.exec, Worker.handleData, readable, isRequest]
    rw [ran]
    refine ⟨(getHandler factories index fresh worker.handlers info).2.events,
      getHandler_silent worker.handlers info, ?_, ?_⟩
    · simp only [Worker.handleRequest, lookup, held, Option.bind_some]
      congr 1
      unfold RequestHandler.handleRequest
      rw [own]
      cases found : (getHandler factories index fresh worker.handlers info).1.find part.getService <;> rfl
    · simp only [Worker.handleRequest, lookup, held, Option.bind_some]
      unfold RequestHandler.handleRequest
      rw [own]
      cases found : (getHandler factories index fresh worker.handlers info).1.find part.getService with
      | none => simp [handling, refusal, Response.command, answerFrames]
      | some svc => exact dispatchRequest_written cfg ⟨info, _, _, _, payload⟩ svc

theorem exec_handler (factories : Nat → Option Factories) (fresh : Nat) {events : List Event}
    (cached : Cached index events worker.handlers) {cmd : WorkerCmd} {request : Request}
    (carries : requestData cfg cmd = some request) :
    ((worker.exec cfg factories index fresh cmd).worker.handlers request.info).isSome := by
  cases cmd with
  | quitWorker | startRpc | runClosure | handleTimeout | registerSvc => cases carries
  | handleData info header payload =>
    obtain ⟨part, inside, rfl⟩ := Option.map_eq_some_iff.mp carries
    obtain ⟨parsed, readable, isRequest⟩ := Option.bind_eq_some_iff.mp inside
    have held := (getHandler_cached factories fresh cached info).2
    simp only [Worker.exec, Worker.handleData, readable, isRequest, Worker.handleRequest, held,
      Option.isSome_some]

theorem exec_refuses (factories : Nat → Option Factories) (fresh : Nat) {events : List Event}
    (cached : Cached index events worker.handlers) (cmd : WorkerCmd) : (worker.exec cfg factories index fresh cmd).writes =
      ((worker.exec cfg factories index fresh cmd).events.filterMap (refusal cfg)).map
        (Response.command cfg.proto) := by
  cases carries : requestData cfg cmd with
  | none =>
    obtain ⟨nothing, silent⟩ : (worker.exec cfg factories index fresh cmd).writes = [] ∧ _ :=
      exec_unhandled factories fresh carries
    have unrefused : (worker.exec cfg factories index fresh cmd).events.filterMap (refusal cfg) = [] :=
      List.filterMap_eq_nil_iff.mpr fun event member => (silent event member).2
    rw [nothing, unrefused]
    rfl
  | some request =>
    obtain ⟨created, silent, events, written⟩ := exec_handles factories fresh cached carries
    have unrefused : created.filterMap (refusal cfg) = [] :=
      List.filterMap_eq_nil_iff.mpr fun event member => (silent event member).2
    rw [events, written, List.filterMap_append, unrefused, List.nil_append]

theorem mem_handling {request : Request} {found : Option Service} {event : Event}
    (member : event ∈ handling cfg request found) :
    (found = none ∧ event = .noSuchService request.info request.eventId request.service) ∨
      ∃ svc, found = some svc ∧
        (event = .dispatched request.info request.eventId request.service svc request.method
            request.payload ∨
          ∃ findMethodByName descriptor, cfg.descriptor svc.target.cls = some findMethodByName ∧
            findMethodByName request.method = some descriptor ∧
            cfg.requestParses descriptor request.payload = true ∧
            event = .called request.info request.eventId svc.target descriptor request.payload) := by
  cases found with
  | none => exact .inl ⟨rfl, List.mem_singleton.mp member⟩
  | some svc =>
    refine .inr ⟨svc, rfl, ?_⟩
    rcases List.mem_cons.mp member with same | inner
    · exact .inl same
    · unfold dispatchRequest at inner
      split at inner
      · cases inner
      · next findMethodByName known =>
        split at inner
        · cases inner
        · next descriptor named =>
          split at inner
          · next parses =>
            exact .inr ⟨findMethodByName, descriptor, known, named, parses,
              List.mem_singleton.mp inner⟩
          · cases inner

end Command

/-! ## Whole runs -/

variable {cfg : Config} {process after : Process} {events emitted : List Event}
  {allowed : Process → Action → Prop}

theorem isHandling_origin {event : Event} (handles : isHandling event = true) :
    origin event = .worker := by
  cases event <;> first | rfl | cases handles

/-- The handling of a request in a step: its worker took it from the queue, and
looks the service up after it got the handler. -/
theorem handling_step (run : Run (machine cfg) allowed events process) {action : Action}
    (fired : (machine cfg).step process action = some (after, emitted)) {event : Event}
    (member : event ∈ emitted) (handles : isHandling event = true) :
    ∃ index header request, action = .worker index ∧
      .popped index (.handleData request.info header request.payload) ∈ emitted ∧
      requestData cfg (.handleData request.info header request.payload) = some request ∧
      ((after.workers index).handlers request.info).isSome ∧
      (∀ other ∈ emitted, isHandling other = true → other ∈ handling cfg request
        (lookup (after.workers index) request.info request.service)) ∧
      ∀ other ∈ handling cfg request (lookup (after.workers index) request.info request.service),
        other ∈ emitted := by
  obtain ⟨index, cmd, rest, result, rfl, unread, same, rfl, rfl⟩ :=
    worker_move (step_move fired) member (.inr (isHandling_origin handles))
  have kept : Cached index events { process.workers index with queue := rest }.handlers :=
    cached_of_run run index
  have inner : event ∈ result.events := by
    rcases List.mem_cons.mp member with rfl | later
    · cases handles
    · exact later
  cases carries : requestData cfg cmd with
  | none =>
    rw [← same] at inner
    have silent := (exec_unhandled process.factories process.nextService carries).2 event inner
    rw [silent.1] at handles
    cases handles
  | some request =>
    obtain ⟨created, silent, shape, _⟩ := exec_handles process.factories process.nextService kept
      carries
    rw [same] at shape
    have here : Function.update process.workers index result.worker index = result.worker :=
      Function.update_self ..
    cases cmd with
    | quitWorker | startRpc | runClosure | handleTimeout | registerSvc => cases carries
    | handleData info header payload =>
      obtain ⟨part, inside, rfl⟩ := Option.map_eq_some_iff.mp carries
      have held := exec_handler process.factories process.nextService kept carries
      rw [same] at held
      refine ⟨index, header, ⟨info, part.getEventId, part.getService, part.getMethod, payload⟩, rfl,
        List.mem_cons_self, carries, by simpa only [here] using held, ?_, ?_⟩
      · intro other inEmitted handling
        rcases List.mem_cons.mp inEmitted with rfl | later
        · cases handling
        · rw [shape] at later
          rcases List.mem_append.mp later with new | own
          · rw [(silent other new).1] at handling
            cases handling
          · simpa only [here] using own
      · intro other own
        apply List.mem_cons_of_mem
        rw [shape]
        apply List.mem_append_right
        simpa only [here] using own

section Run
variable (run : Run (machine cfg) allowed events process)
include run

theorem handled_arrived {event : Event} (member : event ∈ events)
    (handles : isHandling event = true) :
    ∃ header request found, .arrived request.info header request.payload ∈ events ∧
      requestData cfg (.handleData request.info header request.payload) = some request ∧
      event ∈ handling cfg request found ∧ ∀ other ∈ handling cfg request found, other ∈ events := by
  obtain ⟨before, rest, split⟩ := List.append_of_mem member
  have whole := run
  rw [split] at whole
  obtain ⟨earlier, pre, post, later, state, action, middle, stem, permitted, fired, front, remaining,
    back⟩ := whole.occurs
  obtain ⟨index, header, request, _, popped, carries, _, own, all⟩ :=
    handling_step stem fired (by simp) handles
  have inside : ∀ other ∈ pre ++ event :: post, other ∈ events := by
    intro other listed
    rw [split, front, back]
    simp only [List.mem_append, List.mem_cons] at listed ⊢
    tauto
  refine ⟨header, request, _, ?_, carries, own event (by simp) handles,
    fun other listed => inside other (all other listed)⟩
  have queued : .queued index (.handleData request.info header request.payload) ∈ events := by
    apply mem_queuedFor.mp
    rw [delivered_of_run run index]
    exact List.mem_append_left _ (List.mem_append_left _ (mem_processed.mpr (inside _ popped)))
  exact ((provenance_of_run run).queued _ _ queued).2

end Run

end Rpcz.Dispatching
