import Rpcz.Completion

/-!
Where a completion comes from. Pending rpcs are looked up by event id alone, in
the worker of the connection: a response completes a request when it carries its
event id and arrives on any connection of the same worker.
-/

namespace Rpcz.ResponseSource
open Automaton Message EventLog ReactorLoop RequestHandlers WorkerThread BrokerThread ProcessModel
  Moves PendingTable History PendingMap EventIds RequestLog Completion HeaderCodec

/-- The handler ran with the content of a response frame received earlier. -/
structure FromFrame (cfg : Config) (before : List Event) (outcome : Outcome)
    (info : ConnectionInfo) (response : ResponseHeader) : Prop where
  arrived : ∃ header payload, .arrived info header payload ∈ before ∧
    cfg.responseHeader header = some response ∧ outcome = response.outcome payload

/-- The handler ran with the timeout of a request whose timer fired earlier. -/
structure FromTimer (before : List Event) (outcome : Outcome) (info : ConnectionInfo)
    (ctrl : Controller) : Prop where
  expired : outcome = Outcome.timeout
  fired : ∃ index, .timerFired ctrl.eventId index ∈ before
  sent : ∃ sender data, .handled sender (.request info ctrl data) ∈ before
  finite : ctrl.timeoutMs ≠ -1

/-- Only frames of the request's own connection, and its timer, complete it. -/
def CompletedByPeer (cfg : Config) (events : List Event) (request : Issued) : Prop :=
  ∀ before worker outcome rest, events = before ++ .completed worker request.ctrl outcome :: rest →
    (∃ response, FromFrame cfg before outcome request.info response) ∨
      FromTimer before outcome request.info request.ctrl

/-- Only answers that reach the worker of the request's connection under its
event id complete it. -/
structure CompletedByWorker (cfg : Config) (events : List Event) (process : Process)
    (request : Issued) : Prop where
  source : ∀ before worker outcome rest, events = before ++ .completed worker request.ctrl outcome :: rest →
    worker = cfg.getWorkerIndex request.info ∧
      ((∃ info response, FromFrame cfg before outcome info response ∧
          response.getEventId = request.ctrl.eventId ∧
          cfg.getWorkerIndex info = cfg.getWorkerIndex request.info) ∨
        ∃ info ctrl, FromTimer before outcome info ctrl ∧ ctrl.eventId = request.ctrl.eventId ∧
          cfg.getWorkerIndex info = cfg.getWorkerIndex request.info ∧
          ((issued events).length < 2 ^ 64 → info = request.info ∧ ctrl = request.ctrl))
  /-- A message of another worker's connection, or without the event id, leaves the request alone. -/
  undisturbed : ∀ worker info header payload rest,
    (process.workers worker).queue = .handleData info header payload :: rest →
    cfg.getWorkerIndex info ≠ cfg.getWorkerIndex request.info ∨
      cfg.responseId header ≠ some request.ctrl.eventId →
    ∀ result, { process.workers worker with queue := rest }.exec cfg process.factories worker
        process.nextService (.handleData info header payload) = result →
      (∀ eventId, (process.workers worker).pending eventId = some request.ctrl →
        result.worker.pending eventId = some request.ctrl) ∧
      (∀ completer outcome, .completed completer request.ctrl outcome ∉ result.events) ∧
      ∀ deleter, .deleted deleter request.ctrl ∉ result.events

variable {cfg : Config} {process : Process} {events : List Event} {allowed : Process → Action → Prop}

section Run
variable (run : Run (machine cfg) allowed events process)
include run

theorem pending_home {request : Issued} (made : request ∈ issued events) {worker : Nat}
    {eventId : UInt64} (held : (process.workers worker).pending eventId = some request.ctrl) :
    eventId = request.ctrl.eventId ∧ worker = cfg.getWorkerIndex request.info := by
  obtain ⟨own, begun⟩ := started_of_pending run held
  obtain ⟨info, home, started⟩ := started_of_processed run begun
  obtain ⟨thread, listed⟩ := started.issued (ledger_of_run run)
  have same := (ledger_of_run run).serial_injective listed made rfl
  exact ⟨own, by rw [home, ← same]⟩

theorem queue_caused {worker : Nat} {cmd : WorkerCmd} (waiting : cmd ∈ (process.workers worker).queue) :
    Caused cfg events worker cmd := by
  have listed : cmd ∈ queuedFor worker events := by
    rw [delivered_of_run run worker]
    exact List.mem_append_left _ (List.mem_append_right _ waiting)
  obtain ⟨event, member, shown⟩ := List.mem_filterMap.mp listed
  cases event <;> simp at shown
  obtain ⟨rfl, rfl⟩ := shown
  exact (provenance_of_run run).queued _ _ member

theorem closing_source {worker : Nat} {cmd : WorkerCmd} {eventId : UInt64} {outcome : Outcome}
    (waiting : cmd ∈ (process.workers worker).queue)
    (closes : opOf cfg cmd = some (.closing eventId outcome)) :
    (∃ info response, FromFrame cfg events outcome info response ∧ response.getEventId = eventId ∧
        worker = cfg.getWorkerIndex info) ∨
      ∃ info ctrl, FromTimer events outcome info ctrl ∧ ctrl.eventId = eventId ∧
        worker = cfg.getWorkerIndex info := by
  have caused := queue_caused run waiting
  cases cmd with
  | startRpc | runClosure | registerSvc | quitWorker => simp [opOf] at closes
  | handleData info header payload =>
    simp only [opOf, Option.map_eq_some_iff, Op.closing.injEq] at closes
    obtain ⟨response, readable, own, rfl⟩ := closes
    exact .inl ⟨info, response, ⟨header, payload, caused.2, readable, rfl⟩, own, caused.1⟩
  | handleTimeout id =>
    simp only [opOf, Option.some.injEq, Op.closing.injEq] at closes
    obtain ⟨rfl, rfl⟩ := closes
    obtain ⟨index, home, fired⟩ := caused
    obtain ⟨info, ctrl, started, finite, same⟩ := (provenance_of_run run).fired id index fired
    simp only [TimeoutClosure.mk.injEq] at same
    obtain ⟨rfl, rfl⟩ := same
    obtain ⟨⟨thread, handled⟩, _⟩ := started
    obtain ⟨event, member, shown⟩ := List.mem_filterMap.mp handled
    cases event with
    | handled sender cmd =>
      cases cmd with
      | request sent held data =>
        simp only [Option.some.injEq, Issued.mk.injEq] at shown
        obtain ⟨_, rfl, rfl⟩ := shown
        exact .inr ⟨sent, held, ⟨rfl, ⟨_, fired⟩, ⟨sender, data, member⟩, finite⟩, rfl,
          by rw [home, Nat.mod_eq_of_lt (cfg.getWorkerIndex_lt sent)]⟩
      | _ => simp at shown
    | _ => simp at shown

/-- In every run a request is completed only by answers to its event id at its worker. -/
theorem completed_by_worker (request : Issued) (made : request ∈ issued events) :
    CompletedByWorker cfg events process request := by
  constructor
  · intro before worker outcome rest split
    have ledger := ledger_of_run run
    subst split
    obtain ⟨earlier, state, cmd, eventId, given, later, stem, waiting, closes, held, shape⟩ :=
      completion_cut run (.inl ⟨outcome, rfl⟩)
    rcases shape with ⟨same, front, _⟩ | ⟨same, _, _⟩
    swap
    · cases same
    cases same
    have kept : earlier ⊆ before := front ▸ List.subset_append_left ..
    have whole : issued earlier ⊆ issued (before ++ .completed worker request.ctrl outcome :: rest) := by
      rw [front, List.append_assoc, issued_append]
      exact List.subset_append_left ..
    have old : request ∈ issued earlier := by
      obtain ⟨_, begun⟩ := started_of_pending stem held
      obtain ⟨info, _, started⟩ := started_of_processed stem begun
      obtain ⟨thread, listed⟩ := started.issued (ledger_of_run stem)
      exact ledger.serial_injective (whole listed) made rfl ▸ listed
    obtain ⟨rfl, home⟩ := pending_home stem old held
    refine ⟨home, ?_⟩
    rcases closing_source stem waiting closes with ⟨info, response, frame, own, place⟩ |
      ⟨info, ctrl, timer, own, place⟩
    · obtain ⟨header, payload, arrived, readable, same⟩ := frame
      exact .inl ⟨info, response, ⟨header, payload, kept arrived, readable, same⟩, own,
        by rw [← place, home]⟩
    · obtain ⟨expired, ⟨index, fired⟩, ⟨sender, data, sent⟩, finite⟩ := timer
      refine .inr ⟨info, ctrl, ⟨expired, ⟨index, kept fired⟩, ⟨sender, data, kept sent⟩, finite⟩, own,
        by rw [← place, home], fun few => ?_⟩
      have listed : (⟨sender, info, ctrl⟩ : Issued) ∈ issued earlier :=
        (ledger_of_run stem).handled_issued (List.mem_filterMap.mpr ⟨_, sent, rfl⟩)
      have same := ledger.eventId_injective (ledger.length ▸ few) (whole listed) made own
      subst same
      exact ⟨rfl, rfl⟩
  · intro worker info header payload rest unread foreign result same
    have waiting : .handleData info header payload ∈ (process.workers worker).queue := by simp [unread]
    have place : worker = cfg.getWorkerIndex info := (queue_caused run waiting).1
    have apart : ∀ eventId, (process.workers worker).pending eventId = some request.ctrl →
        ∀ outcome, opOf cfg (.handleData info header payload) ≠ some (.closing eventId outcome) := by
      intro eventId held outcome closes
      obtain ⟨rfl, home⟩ := pending_home run made held
      rcases foreign with away | other
      · exact away (by rw [← place, home])
      · simp only [opOf, Option.map_eq_some_iff, Op.closing.injEq] at closes
        obtain ⟨response, readable, own, _⟩ := closes
        exact other (by simp [Config.responseId, readable, own])
    have untouched : ∀ i, ¬ ((∃ outcome, .completed i request.ctrl outcome ∈ result.events) ∨
        .deleted i request.ctrl ∈ result.events) := by
      intro i touched
      rw [← same] at touched
      obtain ⟨_, eventId, outcome, closes, held, _⟩ := exec_completes cfg process.factories worker
        process.nextService { process.workers worker with queue := rest } _ i request.ctrl touched
      exact apart eventId held outcome closes
    refine ⟨fun eventId held => ?_, fun i outcome member => untouched i (.inl ⟨outcome, member⟩),
      fun i member => untouched i (.inr member)⟩
    rw [← same]
    cases kind : opOf cfg (.handleData info header payload) with
    | none =>
      rw [(exec_neutral cfg process.factories worker process.nextService
        { process.workers worker with queue := rest } kind).1]
      exact held
    | some op =>
      cases op with
      | opening => simp [opOf] at kind
      | closing other outcome =>
        rw [exec_closing cfg process.factories worker process.nextService
          { process.workers worker with queue := rest } kind]
        have different : eventId ≠ other := by
          rintro rfl
          exact apart eventId held outcome kind
        unfold Worker.complete
        split
        · exact held
        · simpa [Function.update_of_ne different] using held

end Run

/-- A thread with two connections sends a request on the first; the peer of the
second answers it. -/
def answeredByStranger : List Action :=
  [.thread (.app 0) (.connect [1]), .loopTop, .timers 0, .poll (.ready [true]),
    .dispatch (.frontend (.app 0) ⟨true, 0, 0⟩), .flush, .dispatch .nothing,
    .thread (.app 0) .receive, .thread (.app 0) (.connect [2]), .loopTop, .timers 0,
    .poll (.ready [true, false]), .dispatch (.frontend (.app 0) ⟨true, 0, 0⟩), .flush,
    .dispatch .nothing, .dispatch .nothing, .thread (.app 0) .receive,
    .thread (.app 0) (.request (.dealer 1) [2] [3] [4] (some 7) (-1)),
    .thread (.app 0) (.sendRequest true), .loopTop, .timers 0, .poll (.ready [true, false, true]),
    .dispatch (.frontend (.app 0) ⟨true, 0, 0⟩), .flush, .flush, .dispatch .nothing,
    .dispatch (.message ([] :: replyFrames protobuf 1 [9])), .flush, .dispatch .nothing,
    .worker 0, .worker 0]

def unheard : Event → Bool
  | .arrived info _ _ => info ≠ .dealer 1
  | .timerFired _ _ => false
  | _ => true

/-- Another peer than the one that was asked can complete a request. -/
theorem stranger_completes : ¬ ∀ cfg events process request, Run (machine cfg) anyStep events process →
    request ∈ issued events → CompletedByPeer cfg events request := by
  intro claim
  have ran := run_reached (machine (linked 0 (fun _ => none) (fun _ _ => true))) answeredByStranger
  have silent : (reached (machine (linked 0 (fun _ => none) (fun _ _ => true)))
      answeredByStranger).2.all unheard = true := by decide +kernel
  have member : .completed 0 ⟨0, 1, some 7, -1⟩ (.done [9]) ∈
      (reached (machine (linked 0 (fun _ => none) (fun _ _ => true))) answeredByStranger).2 := by
    decide +kernel
  obtain ⟨before, rest, split⟩ := List.append_of_mem member
  have inside : before ⊆
      (reached (machine (linked 0 (fun _ => none) (fun _ _ => true))) answeredByStranger).2 :=
    split ▸ List.subset_append_left ..
  rw [List.all_eq_true] at silent
  rcases claim _ _ _ ⟨.app 0, .dealer 1, ⟨0, 1, some 7, -1⟩⟩ ran (by decide +kernel) before 0 _ rest split
    with ⟨response, header, payload, arrived, _⟩ | ⟨_, ⟨index, fired⟩, _⟩
  · simpa [unheard] using silent _ (inside arrived)
  · simpa [unheard] using silent _ (inside fired)

/-- Here the worker of both connections is the same, and the answer is the stranger's. -/
theorem completed_by_worker_stranger :
    let cfg := linked 0 (fun _ => none) (fun _ _ => true)
    let ran := reached (machine cfg) answeredByStranger
    CompletedByWorker cfg ran.2 ran.1 ⟨.app 0, .dealer 1, ⟨0, 1, some 7, -1⟩⟩ :=
  completed_by_worker (run_reached _ _) _ (by decide +kernel)

end Rpcz.ResponseSource
