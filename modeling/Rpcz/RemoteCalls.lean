import Rpcz.Network
import Rpcz.ResponseSource

/-!
Calls from one process to another. A response that arrives goes back to one
request of its connection, which the peer handled before. So in a network of
processes that use the library every call is completed by its own timer or with
what the peer answered to it.
-/

namespace Rpcz.RemoteCalls
open Automaton Message EventLog RequestHandlers WorkerThread ProcessModel History PendingMap EventIds
  RequestLog ResponseOrder Completion ResponseSource Dispatching UserCode FifoNetwork Network HeaderCodec

/-- What a process answers to a request: the library refuses it, or the service
it was handed to answers through the replier. -/
inductive AnsweredBy (cfg : Config) (reports : List Report) (request : Request) : Outcome → Prop where
  | unknownService
      (looked : .noSuchService request.info request.eventId request.service ∈ eventsIn reports) :
      AnsweredBy cfg reports request
        (.error ErrorCode.NO_SUCH_SERVICE (ascii "Invalid service: " ++ request.service))
  | unknownMethod (svc : Service) (findMethodByName : Bytes → Option Nat)
      (dispatched : .dispatched request.info request.eventId request.service svc request.method
        request.payload ∈ eventsIn reports)
      (known : cfg.descriptor svc.target.cls = some findMethodByName)
      (missing : findMethodByName request.method = none) :
      AnsweredBy cfg reports request (.error ErrorCode.NO_SUCH_METHOD [])
  | invalidMessage (svc : Service) (findMethodByName : Bytes → Option Nat) (descriptor : Nat)
      (dispatched : .dispatched request.info request.eventId request.service svc request.method
        request.payload ∈ eventsIn reports)
      (known : cfg.descriptor svc.target.cls = some findMethodByName)
      (found : findMethodByName request.method = some descriptor)
      (unreadable : cfg.requestParses descriptor request.payload = false) :
      AnsweredBy cfg reports request (.error ErrorCode.INVALID_MESSAGE [])
  | method (svc : Service) (findMethodByName : Bytes → Option Nat) (descriptor : Nat)
      (dispatched : .dispatched request.info request.eventId request.service svc request.method
        request.payload ∈ eventsIn reports)
      (known : cfg.descriptor svc.target.cls = some findMethodByName)
      (found : findMethodByName request.method = some descriptor)
      (parses : cfg.requestParses descriptor request.payload = true)
      (called : .called request.info request.eventId svc.target descriptor request.payload ∈
        eventsIn reports)
      (thread : Thread) (outcome : Outcome)
      (replied : .answered thread ⟨request.info, request.eventId, outcome⟩ ∈ reports) :
      AnsweredBy cfg reports request outcome
  | service (svc : Service)
      (dispatched : .dispatched request.info request.eventId request.service svc request.method
        request.payload ∈ eventsIn reports)
      (custom : cfg.descriptor svc.target.cls = none)
      (thread : Thread) (outcome : Outcome)
      (replied : .answered thread ⟨request.info, request.eventId, outcome⟩ ∈ reports) :
      AnsweredBy cfg reports request outcome

/-- A call is completed at one point of the history and at no other. -/
def CompletedOnce (events : List Event) (ctrl : Controller) : Prop :=
  ∃ before worker outcome rest, events = before ++ .completed worker ctrl outcome :: rest ∧
    ∀ other given, .completed other ctrl given ∉ before ++ rest

theorem AnsweredBy.mono {cfg : Config} {reports more : List Report} {request : Request}
    {outcome : Outcome} (answered : AnsweredBy cfg reports request outcome) (kept : reports ⊆ more) :
    AnsweredBy cfg more request outcome := by
  have events : ∀ {event}, event ∈ eventsIn reports → event ∈ eventsIn more :=
    fun listed => mem_eventsIn.mpr (kept (mem_eventsIn.mp listed))
  cases answered with
  | unknownService looked => exact .unknownService (events looked)
  | unknownMethod svc table dispatched known missing =>
    exact .unknownMethod svc table (events dispatched) known missing
  | invalidMessage svc table descriptor dispatched known found unreadable =>
    exact .invalidMessage svc table descriptor (events dispatched) known found unreadable
  | method svc table descriptor dispatched known found parses called thread outcome replied =>
    exact .method svc table descriptor (events dispatched) known found parses (events called) thread _
      (kept replied)
  | service svc dispatched custom thread outcome replied =>
    exact .service svc (events dispatched) custom thread _ (kept replied)

theorem responds_answers {cfg : Config} {member : Member} {reports : List Report}
    {allowed : Member → Action → Prop} (run : Run (UserCode.machine cfg) allowed reports member)
    {response : Response} (responds : Responds cfg reports response) :
    ∃ header request, request.info = response.info ∧ request.eventId = response.eventId ∧
      .arrived request.info header request.payload ∈ eventsIn reports ∧
      requestData cfg (.handleData request.info header request.payload) = some request ∧
      AnsweredBy cfg reports request response.outcome := by
  obtain ⟨event, listed, handles, _⟩ := responds.handled run
  rcases responds with ⟨thread, answered⟩ | ⟨event, listed, refused⟩
  · obtain ⟨event, listed, hands⟩ := answered_handed run answered
    obtain ⟨header, request, found, arrived, carries, own, all⟩ :=
      handled_arrived (project_run run) listed (replierIn_isHandling hands)
    refine ⟨header, request, ?_⟩
    rcases mem_handling own with ⟨_, rfl⟩ | ⟨svc, rfl, rfl | ⟨table, descriptor, known, named, parses, rfl⟩⟩
    · cases hands
    · simp only [replierIn, Option.ite_none_right_eq_some, Option.isNone_iff_eq_none,
        Option.some.injEq, Prod.mk.injEq] at hands
      obtain ⟨custom, info, id⟩ := hands
      exact ⟨info, id, arrived, carries,
        .service svc listed custom thread response.outcome (by rw [info, id]; exact answered)⟩
    · simp only [replierIn, Option.some.injEq, Prod.mk.injEq] at hands
      obtain ⟨info, id⟩ := hands
      exact ⟨info, id, arrived, carries, .method svc table descriptor (all _ List.mem_cons_self) known
        named parses listed thread response.outcome (by rw [info, id]; exact answered)⟩
  · obtain ⟨header, request, found, arrived, carries, own, all⟩ :=
      handled_arrived (project_run run) listed (refusal_isHandling refused)
    refine ⟨header, request, ?_⟩
    rcases mem_handling own with ⟨_, rfl⟩ | ⟨svc, rfl, rfl | ⟨table, descriptor, known, named, _, rfl⟩⟩
    · cases refused
      exact ⟨rfl, rfl, arrived, carries, .unknownService listed⟩
    · simp only [refusal] at refused
      split at refused
      · cases refused
      · next table known =>
        split at refused
        · next missing =>
          cases refused
          exact ⟨rfl, rfl, arrived, carries, .unknownMethod svc table listed known missing⟩
        · next descriptor named =>
          split at refused
          · cases refused
          · next unreadable =>
            cases refused
            exact ⟨rfl, rfl, arrived, carries,
              .invalidMessage svc table descriptor listed known named (by simpa using unreadable)⟩
    · cases refused

theorem completion_source {cfg : Config} {process : Process} {events : List Event}
    {permitted : Process → Action → Prop} (run : Run (ProcessModel.machine cfg) permitted events process)
    {worker : Nat} {ctrl : Controller} {outcome : Outcome}
    (completed : .completed worker ctrl outcome ∈ events) :
    (∃ info response, FromFrame cfg events outcome info response ∧
        response.getEventId = ctrl.eventId) ∨
      ∃ info sent, FromTimer events outcome info sent ∧ sent.eventId = ctrl.eventId := by
  obtain ⟨before, rest, rfl⟩ := List.append_of_mem completed
  obtain ⟨earlier, state, cmd, eventId, given, later, stem, waiting, closes, held, shape⟩ :=
    completion_cut run (.inl ⟨outcome, rfl⟩)
  obtain ⟨rfl, _⟩ := started_of_pending stem held
  rcases shape with ⟨same, rfl, _⟩ | ⟨same, _, _⟩
  swap
  · cases same
  cases same
  have kept : earlier ⊆ earlier ++ [.popped worker cmd] ++ .completed worker ctrl outcome :: rest := by
    rw [List.append_assoc]
    exact List.subset_append_left _ _
  rcases closing_source stem waiting closes with ⟨info, response, frame, own, _⟩ |
    ⟨info, sent, timer, own, _⟩
  · obtain ⟨header, payload, arrived, readable, same⟩ := frame
    exact .inl ⟨info, response, ⟨header, payload, kept arrived, readable, same⟩, own⟩
  · obtain ⟨expired, ⟨index, fired⟩, ⟨sender, data, read⟩, finite⟩ := timer
    exact .inr ⟨info, sent, ⟨expired, ⟨index, kept fired⟩, ⟨sender, data, kept read⟩, finite⟩, own⟩

section Run
variable {world : World} {net : Net} {log : Log} {allowed : Net → Nat × Action → Prop}
  (run : Run (Network.machine world) allowed log net)
include run

theorem arrived_asked {node : Nat} {info : ConnectionInfo} {header payload : Bytes} {request : Request}
    (arrived : .arrived info header payload ∈ happened node log)
    (carries : requestData (world.config node) (.handleData info header payload) = some request) :
    ∃ near thread ctrl, world.peer near = some (node, info) ∧ ctrl.eventId = request.eventId ∧
      .asked thread near.2 ctrl request.service request.method request.payload ∈ eventsAt near.1 log ∧
      ∃ frames, .forwarded near.2 frames (some ctrl) ∈ happened near.1 log := by
  obtain ⟨before, rest, split⟩ := List.append_of_mem arrived
  obtain ⟨earlier, near, linked, start, _, _, carried⟩ := arrived_before run split
  rcases carried with carried | carried
  · obtain ⟨thread, ctrl, service, method, asked, ⟨frames, forwarded⟩, readable⟩ := carried.asked
    rw [carries] at readable
    cases readable
    exact ⟨near, thread, ctrl, linked, rfl, eventsAt_mono start.subset asked, frames,
      happened_mono start.subset forwarded⟩
  · rw [carried.noRequest] at carries
    cases carries

/-- A response arrives at the process that asked, over the connection it asked
on and after the request was sent, and is what the peer answered. -/
theorem response_returned {node : Nat} {info : ConnectionInfo} {header payload : Bytes}
    {part : ResponseHeader} {before rest : List Event}
    (split : happened node log = before ++ .arrived info header payload :: rest)
    (readable : (world.config node).responseHeader header = some part) :
    ∃ far thread ctrl service method sent, world.peer (node, info) = some far ∧
      .asked thread info ctrl service method sent ∈ eventsAt node log ∧
      (∃ frames, .forwarded info frames (some ctrl) ∈ before) ∧ part.getEventId = ctrl.eventId ∧
      AnsweredBy (world.config far.1) (eventsAt far.1 log)
        ⟨far.2, ctrl.eventId, service, method, sent⟩ (part.outcome payload) := by
  obtain ⟨earlier, far, linked, start, own, ⟨state, stem⟩, carried⟩ := arrived_before run split
  rcases carried with carried | carried
  · rw [carried.noResponse] at readable
    cases readable
  · obtain ⟨response, other, responds, here, readable', sameId, outcome⟩ := carried.responded
    rw [readable] at readable'
    cases readable'
    obtain ⟨header', ⟨target, eventId, service, method, sent⟩, sameInfo, requestId, arrived, carries,
      answered⟩ := responds_answers (member_run stem far.1) responds
    simp only at sameInfo requestId
    have home : target = far.2 := sameInfo.trans here
    subst home requestId
    obtain ⟨near, thread, ctrl, linked', id, asked, frames, forwarded⟩ :=
      arrived_asked stem arrived carries
    -- the peer of the peer's connection is this connection
    have mirrored := world.symmetric _ _ linked'
    rw [linked] at mirrored
    obtain rfl : (node, info) = near := Option.some.inj mirrored
    refine ⟨far, thread, ctrl, service, method, sent, world.symmetric _ _ linked,
      eventsAt_mono start.subset asked, ⟨frames, own forwarded⟩, by rw [sameId, id], ?_⟩
    rw [outcome, id]
    exact answered.mono (eventsAt_mono start.subset)

theorem in_turn {node : Nat} (few : (net.state node).process.requests < 2 ^ 64) :
    RespondsInTurn (world.config node) (happened node log) := by
  intro before info header payload rest split request made carried
  obtain ⟨part, readable, id⟩ := Option.map_eq_some_iff.mp carried
  obtain ⟨far, thread, ctrl, service, method, sent, _, asked, forwarded, sameId, _⟩ :=
    response_returned run split readable
  have listed : (⟨thread, info, ctrl⟩ : Issued) ∈ issued (happened node log) :=
    asked_issued (member_run run node) asked
  have same := (ledger_of_run (process_run run node)).eventId_injective few listed made
    (by rw [← sameId, ← id])
  subst same
  exact ⟨rfl, forwarded⟩

theorem answer_of_completed {node worker : Nat} (few : (issued (happened node log)).length < 2 ^ 64)
    {thread : Thread} {info : ConnectionInfo} {ctrl : Controller} {service method payload : Bytes}
    (asked : .asked thread info ctrl service method payload ∈ eventsAt node log) {outcome : Outcome}
    (completed : .completed worker ctrl outcome ∈ happened node log) :
    (outcome = Outcome.timeout ∧ ctrl.timeoutMs ≠ -1 ∧
        ∃ index, .timerFired ctrl.eventId index ∈ happened node log) ∨
      ∃ far, world.peer (node, info) = some far ∧
        AnsweredBy (world.config far.1) (eventsAt far.1 log)
          ⟨far.2, ctrl.eventId, service, method, payload⟩ outcome := by
  have ledger := ledger_of_run (process_run run node)
  have bound := ledger.length ▸ few
  have made : (⟨thread, info, ctrl⟩ : Issued) ∈ issued (happened node log) :=
    asked_issued (member_run run node) asked
  rcases completion_source (process_run run node) completed with
    ⟨target, part, ⟨header, data, arrived, readable, rfl⟩, own⟩ |
      ⟨target, sent, ⟨rfl, fired, ⟨sender, data, read⟩, finite⟩, own⟩
  · obtain ⟨before, rest, split⟩ := List.append_of_mem arrived
    obtain ⟨far, other, ctrl', service', method', sent, linked, asked', _, sameId, answered⟩ :=
      response_returned run split readable
    have listed : (⟨other, target, ctrl'⟩ : Issued) ∈ issued (happened node log) :=
      asked_issued (member_run run node) asked'
    have same := ledger.eventId_injective bound listed made (by rw [← sameId, own])
    cases same
    cases asked_once (member_run run node) asked asked'
    exact .inr ⟨far, linked, answered⟩
  · have listed : (⟨sender, target, sent⟩ : Issued) ∈ issued (happened node log) :=
      ledger.handled_issued (List.mem_filterMap.mpr ⟨_, read, rfl⟩)
    have same := ledger.eventId_injective bound listed made own
    cases same
    exact .inl ⟨rfl, finite, fired⟩

theorem completed_exactly {node : Nat} (few : (issued (happened node log)).length < 2 ^ 64)
    {request : Issued} (made : request ∈ issued (happened node log)) {worker : Nat} {outcome : Outcome}
    (completed : .completed worker request.ctrl outcome ∈ happened node log) :
    CompletedOnce (happened node log) request.ctrl := by
  have nodeRun := process_run run node
  have responds := in_turn run ((ledger_of_run nodeRun).length ▸ few)
  obtain ⟨before, rest, split⟩ := List.append_of_mem completed
  refine ⟨before, worker, outcome, rest, split, fun other given again => ?_⟩
  rcases List.mem_append.mp again with early | late
  · exact completed_once nodeRun few responds made split early List.mem_cons_self
  · have grouped : happened node log = (before ++ [.completed worker request.ctrl outcome]) ++ rest := by
      rw [split, List.append_assoc]
      rfl
    exact completed_once nodeRun few responds made grouped
      (List.mem_append_right _ (List.mem_singleton_self _)) late

end Run

/-! Process 0 connects to process 1, which serves method 3 of service 2. -/

def oneMethod : Config :=
  linked 0 (fun _ => some fun method => if method = [3] then some 0 else none) (fun _ _ => true)

def peerOf (near : End) : Option End :=
  if near = (0, .dealer 1) then some (1, .router 1 [7])
  else if near = (1, .router 1 [7]) then some (0, .dealer 1)
  else none

def twoProcesses : World where
  config _ := oneMethod
  proto := protobuf
  shared _ := rfl
  lossless := parseHeader_serializeHeader
  peer := peerOf
  symmetric near far linked := by
    unfold peerOf at linked
    split at linked
    · next same =>
      cases linked
      subst same
      decide
    · split at linked
      · next same =>
        cases linked
        subst same
        decide
      · cases linked

def readsCommand (flags : List Bool) (sender : Thread) (effects : Nat) : List Action :=
  [.loopTop, .timers 0, .poll (.ready flags), .dispatch (.frontend sender ⟨true, 0, 0⟩)] ++
    List.replicate effects .flush ++ List.replicate flags.length (.dispatch .nothing)

/-- A turn of the broker in which it reads a message of its only connection. -/
def readsMessage (frames : List Frame) : List Action :=
  [.loopTop, .timers 0, .poll (.ready [false, true]), .dispatch .nothing,
    .dispatch (.message frames), .flush, .dispatch .nothing]

def asking : List Action :=
  .thread (.app 0) (.connect [1]) :: readsCommand [true] (.app 0) 1 ++
    [.thread (.app 0) .receive, .thread (.app 0) (.request (.dealer 1) [2] [3] [4] (some 7) (-1)),
      .thread (.app 0) (.sendRequest true)] ++ readsCommand [true, false] (.app 0) 2

def serving : List Action :=
  [.thread (.app 0) (.registerFactory (.user 0) [2] (.perConnection 5)),
    .thread (.app 0) (.bind [1] 0)] ++ readsCommand [true] (.app 0) 1 ++
    [.thread (.app 0) .receive, .thread (.app 0) .insertFactories]

def answering : List Action :=
  readsMessage ([7] :: [] :: requestFrames protobuf 1 [2] [3] [4]) ++
    [.worker 0, .thread (.worker 0) (.reply (.router 1 [7]) 1 [9])] ++
    readsCommand [true, false] (.worker 0) 1

def completing : List Action :=
  readsMessage ([] :: replyFrames protobuf 1 [9]) ++ [.worker 0, .worker 0]

/-- The client asks, the server answers and the client gets the answer. -/
def callAndAnswer : List (Nat × Action) :=
  asking.map (0, ·) ++ serving.map (1, ·) ++ answering.map (1, ·) ++ completing.map (0, ·)

abbrev called : Net × Log := reached (Network.machine twoProcesses) callAndAnswer

end Rpcz.RemoteCalls
