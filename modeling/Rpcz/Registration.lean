import Rpcz.ConnectionHome

/-!
A thread registers a service on a connection and then sends a request on it. The
pipe of the thread and the queue of the worker keep that order, so whatever the
peer sends because of the request meets the service.
-/

namespace Rpcz.Registration
open Automaton Message EventLog ReactorLoop RequestHandlers WorkerThread BrokerThread ProcessModel
  Moves History RequestLog HandlerCache ConnectionHome HeaderCodec
open EventIds hiding requestOf

/-- The first part of a queue is done once the element behind it comes up: both
are told apart by a count of the elements that matter. -/
theorem prefix_of_count {Element Mark : Type} (mark : Element → Option Mark)
    {first more done rest : List Element} {next : Element}
    (same : first ++ more = done ++ next :: rest) (marked : (mark next).isSome)
    (count : (done.filterMap mark).length = (first.filterMap mark).length) : first <+: done := by
  rcases List.append_eq_append_iff.mp same with ⟨gap, behind, _⟩ | ⟨gap, behind, front⟩
  · exact ⟨gap, behind.symm⟩
  · cases gap with
    | nil => exact ⟨[], by rw [behind, List.append_nil, List.append_nil]⟩
    | cons head tail =>
      simp only [List.cons_append, List.cons.injEq] at front
      obtain ⟨value, found⟩ := Option.isSome_iff_exists.mp marked
      rw [behind, List.filterMap_append, ← front.1, List.filterMap_cons, found,
        List.length_append, List.length_cons] at count
      omega

/-- The command is in the pipe of the thread, in front of all later ones. -/
def Ahead (thread : Thread) (cmd : Command) (later : Command → Prop) (process : Process) : Prop :=
  ∃ front rest, process.pipes thread = front ++ cmd :: rest ∧ ∀ other ∈ front, ¬ later other

variable {cfg : Config} {process after : Process} {events emitted : List Event}

theorem Ahead.step {thread : Thread} {cmd : Command} {later : Command → Prop}
    (ahead : Ahead thread cmd later process) {action : Action}
    (move : Move cfg process action after emitted) :
    .handled thread cmd ∈ emitted ∨
      Ahead thread cmd later after ∧ ∀ other, .handled thread other ∈ emitted → ¬ later other := by
  obtain ⟨front, rest, inside, allowed⟩ := ahead
  by_cases read : ∃ other, .handled thread other ∈ emitted
  · obtain ⟨other, member⟩ := read
    obtain ⟨i, oracle, tail, result, _, _, _, _, unread, _, rfl, report⟩ := handled_move move member
    rw [inside] at unread
    cases front with
    | nil =>
      simp only [List.nil_append, List.cons.injEq] at unread
      exact .inl (unread.1 ▸ member)
    | cons head front =>
      simp only [List.cons_append, List.cons.injEq] at unread
      obtain ⟨rfl, rfl⟩ := unread
      refine .inr ⟨⟨front, rest, by simp, fun command inside' =>
        allowed command (List.mem_cons_of_mem _ inside')⟩, fun again member' => ?_⟩
      obtain ⟨_, _, _, _, _, _, _, _, unread', _⟩ := handled_move move member'
      rw [inside, List.cons_append, List.cons.injEq] at unread'
      exact unread'.1 ▸ allowed head List.mem_cons_self
  · obtain ⟨more, grown⟩ := pipe_grows move thread (fun other member => read ⟨other, member⟩)
    refine .inr ⟨⟨front, rest ++ more, by rw [grown, inside]; simp, allowed⟩, fun other member =>
      absurd ⟨other, member⟩ read⟩

theorem handled_registerSvc {action : Action} (move : Move cfg process action after emitted)
    {thread : Thread} {info : ConnectionInfo} {name : Bytes} {svc : ServiceObject}
    (member : .handled thread (.registerSvc info name svc) ∈ emitted) :
    .queued (cfg.getWorkerIndex info) (.registerSvc info name svc) ∈ emitted := by
  obtain ⟨i, oracle, rest, result, _, performed, _, _, _, same, _, report⟩ := handled_move move member
  rw [report, ← same]
  simp [Broker.handleCommand, Broker.emit, performed, queuedEvents]

theorem arrived_move {action : Action} (move : Move cfg process action after emitted)
    {info : ConnectionInfo} {header payload : Bytes}
    (member : .arrived info header payload ∈ emitted) :
    emitted = [.arrived info header payload,
      .queued (cfg.getWorkerIndex info) (.handleData info header payload)] ∧
      ∃ frames, action = .dispatch (.message frames) := by
  have listed : (cfg.getWorkerIndex info, WorkerCmd.handleData info header payload) ∈
      arrivals cfg emitted := List.mem_filterMap.mpr ⟨_, member, rfl⟩
  have broker : ∀ result : Broker × List Event, Undelivering result →
      (∀ event ∈ result.2, origin event = .broker) →
        emitted = result.2 ++ queuedEvents result.1.outbox → False := by
    intro result undelivering silent report
    rw [report, (undelivering.none cfg silent).1] at listed
    cases listed
  cases move with
  | message i callback frames phase performed slot network nonempty result same =>
    subst same
    rcases receive_delivers cfg { process.broker with phase := .dispatch (i + 1) } performed callback
      frames with undelivering | ⟨target, header', payload', reported, pushed⟩
    · exact absurd rfl (broker _ undelivering (receive_origin _ _ _ _))
    · rw [reported, pushed] at member ⊢
      simp only [queuedEvents, List.filterMap_cons, List.filterMap_nil, List.singleton_append,
        List.mem_cons, Event.arrived.injEq, reduceCtorEq, List.not_mem_nil, or_false] at member
      obtain ⟨rfl, rfl, rfl⟩ := member
      exact ⟨rfl, frames, rfl⟩
  | thread actor action after emitted running move =>
    simpa [origin] using (threadMove_frame move).2.2.2.2 _ member
  | loopTop phase performed =>
    exact absurd rfl (broker _ (loopTop_undelivering _ performed) (loopTop_origin _))
  | timers now phase performed =>
    exact absurd rfl (broker _ (runTimers_undelivering cfg _ performed now) (runTimers_origin _ _ _))
  | poll outcome phase performed =>
    exact absurd rfl (broker _ (afterPoll_undelivering _ performed outcome) (afterPoll_origin _ _))
  | command i sender oracle cmd rest phase performed slot unread result same =>
    subst same
    have undelivering := handleCommand_undelivering cfg
      { process.broker with phase := .dispatch (i + 1) } performed oracle sender cmd
    rcases List.mem_cons.mp member with equal | later
    · cases equal
    · rcases List.mem_append.mp later with reported | queued
      · exact absurd reported (undelivering.unread _ _ _)
      · simpa [origin] using queuedEvents_origin _ queued
  | flush output rest live unperformed =>
    cases output with
    | push | reply => simp [Process.perform] at member
    | send info' socket frames cause =>
      simp only [Process.perform] at member
      split at member <;> simp [Broker.fault] at member
  | worker index cmd rest legal running idle unread result same =>
    rcases List.mem_cons.mp member with equal | later
    · cases equal
    · rw [← same] at later
      simpa [origin] using exec_origin _ _ _ _ _ _ _ later
  | finished | quiet | outOfRange | release | joinBroker | joinWorkers => simp at member

/-- What a worker took as registration is what the connection serves since, or a
later registration is. -/
theorem registered_lookup (run : Run (machine cfg) anyStep events process)
    {info : ConnectionInfo} {name : Bytes} {svc : ServiceObject} {before rest : List Event}
    (split : events = before ++
      .popped (cfg.getWorkerIndex info) (.registerSvc info name svc) :: rest) :
    ∃ current, lookup (process.workers (cfg.getWorkerIndex info)) info name = some (.own current) ∧
      (current = svc ∨
        .popped (cfg.getWorkerIndex info) (.registerSvc info name current) ∈ rest) := by
  revert before rest
  refine Steps.invariant (fun events process => ∀ {before rest : List Event}, events = before ++
      .popped (cfg.getWorkerIndex info) (.registerSvc info name svc) :: rest →
    ∃ current, lookup (process.workers (cfg.getWorkerIndex info)) info name = some (.own current) ∧
      (current = svc ∨
        .popped (cfg.getWorkerIndex info) (.registerSvc info name current) ∈ rest)) ?_ ?_ run
  · intro before rest split
    simp at split
  · intro events process action emitted after earlier ih _ fired before rest split
    have registers : ∀ replacing,
        .popped (cfg.getWorkerIndex info) (.registerSvc info name replacing) ∈ emitted →
          lookup (after.workers (cfg.getWorkerIndex info)) info name = some (.own replacing) ∧
            ∃ tail, emitted =
                .popped (cfg.getWorkerIndex info) (.registerSvc info name replacing) :: tail ∧
              ∀ event ∈ tail, origin event = .worker := by
      intro replacing member
      obtain ⟨index, cmd, queue, result, _, unread, same, moved, report⟩ :=
        worker_move (step_move fired) member (.inl rfl)
      have silent : ∀ event ∈ result.events, origin event = .worker :=
        same ▸ exec_origin _ _ _ _ _ _
      rw [report] at member
      rcases List.mem_cons.mp member with head | later
      · obtain ⟨rfl, rfl⟩ := Event.popped.inj head
        refine ⟨?_, result.events, report, silent⟩
        have done := exec_registers cfg process.factories (cfg.getWorkerIndex info)
          process.nextService { process.workers (cfg.getWorkerIndex info) with queue := queue } info
          name replacing
        rw [same] at done
        rw [moved]
        simpa using done
      · simpa [origin] using silent _ later
    have new : ∀ pre, emitted = pre ++
        .popped (cfg.getWorkerIndex info) (.registerSvc info name svc) :: rest →
        ∃ current, lookup (after.workers (cfg.getWorkerIndex info)) info name = some (.own current) ∧
          (current = svc ∨
            .popped (cfg.getWorkerIndex info) (.registerSvc info name current) ∈ rest) := by
      intro pre report
      exact ⟨svc, (registers svc (by rw [report]; simp)).1, .inl rfl⟩
    rcases List.append_eq_append_iff.mp split with ⟨pre, front, back⟩ | ⟨gap, front, back⟩
    · exact new pre back
    · cases gap with
      | nil => exact new [] (by rw [List.nil_append]; rw [List.nil_append] at back; exact back.symm)
      | cons head tail =>
        simp only [List.cons_append, List.cons.injEq] at back
        obtain ⟨rfl, rfl⟩ := back
        obtain ⟨current, found, since⟩ := ih front
        by_cases again : ∃ replacing,
            .popped (cfg.getWorkerIndex info) (.registerSvc info name replacing) ∈ emitted
        · obtain ⟨replacing, member⟩ := again
          exact ⟨replacing, (registers replacing member).1, .inr (List.mem_append_right _ member)⟩
        · refine ⟨current, lookup_kept fired found (fun replacing member =>
            again ⟨replacing, member⟩), since.imp_right (List.mem_append_left _)⟩

theorem exec_dispatches (factories : Nat → Option Factories) (fresh : Nat) {index : Nat}
    {worker : Worker} {events : List Event} (cached : Cached index events worker.handlers)
    {info : ConnectionInfo} {header name : Bytes} (payload : Bytes) {eventId : UInt64} {svc : Service}
    (found : lookup worker info name = some svc)
    (asks : requestOf cfg header = some (eventId, name)) :
    (∃ method, .dispatched info eventId name svc method payload ∈
        (worker.exec cfg factories index fresh (.handleData info header payload)).events) ∧
      ∀ target id refused, .noSuchService target id refused ∉
        (worker.exec cfg factories index fresh (.handleData info header payload)).events := by
  unfold requestOf at asks
  cases readable : cfg.proto.parseHeader header with
  | none => simp [readable] at asks
  | some parsed =>
    cases isRequest : parsed.reqHdr with
    | none => simp [readable, isRequest] at asks
    | some request =>
      simp only [readable, isRequest, Option.bind_some, Option.map_some, Option.some.injEq,
        Prod.mk.injEq] at asks
      obtain ⟨rfl, rfl⟩ := asks
      obtain ⟨handler, held, present⟩ := Option.bind_eq_some_iff.mp found
      have own := (cached info handler held).1
      have got : getHandler factories index fresh worker.handlers info =
          (handler, ⟨worker.handlers, fresh, [], []⟩) := by
        unfold getHandler
        rw [held]
      simp only [Worker.exec, Worker.handleData, readable, isRequest, Worker.handleRequest, got,
        RequestHandler.handleRequest, present, own, List.nil_append]
      refine ⟨⟨request.getMethod, List.mem_cons_self⟩, fun target id refused member => ?_⟩
      simp only [List.mem_cons, reduceCtorEq, false_or] at member
      unfold dispatchRequest at member
      split at member
      · cases member
      · split at member
        · cases member
        · split at member <;> simp at member

theorem registerService_pipes {thread : Thread} {info : ConnectionInfo} {name : Bytes}
    {svc : ServiceObject} (fired : (machine cfg).step process
      (.thread thread (.registerService info name svc)) = some (after, emitted)) :
    after.pipes thread = process.pipes thread ++ [.registerSvc info name svc] := by
  cases step_move fired with
  | thread _ _ _ _ running move =>
    cases move with
    | registerService _ _ _ idle => simp [Process.write]
    | reply _ _ _ _ made => rcases made with ⟨_, _, same, _⟩ | ⟨_, _, _, same, _⟩ <;> cases same

theorem request_pipes {thread : Thread} {info : ConnectionInfo} {service method payload : Bytes}
    {handler : Option Nat} {timeoutMs : Int64} (fired : (machine cfg).step process
      (.thread thread (.request info service method payload handler timeoutMs)) =
        some (after, emitted)) : after.pipes = process.pipes := by
  cases step_move fired with
  | thread _ _ _ _ running move =>
    cases move with
    | request => rfl
    | reply _ _ _ _ made => rcases made with ⟨_, _, same, _⟩ | ⟨_, _, _, same, _⟩ <;> cases same

/-- A thread registers `svc` under `name` and afterwards requests something on the
same connection; the broker puts the request on the socket and later receives a
message of the peer, the next one of this connection that the worker takes. A
peer that sends because of the request has received it, so its message arrives
behind `forwarded`. -/
structure Story (cfg : Config) (info : ConnectionInfo) (name : Bytes) (svc : ServiceObject) where
  (thread : Thread) (worker : Nat)
  (start registered asking asked taking done : Process)
  (before between first second third emitted : List Event)
  (service method request : Bytes) (handler : Option Nat) (timeoutMs : Int64)
  (frames : List Frame) (header payload : Bytes) (eventId : UInt64)
  run : Run (machine cfg) anyStep before start
  registers : (machine cfg).step start (.thread thread (.registerService info name svc)) =
    some (registered, [])
  others : Steps (machine cfg) anyStep registered between asking
  asks : (machine cfg).step asking
      (.thread thread (.request info service method request handler timeoutMs)) =
    some (asked, [.fetched thread info ⟨asking.requests, asking.nextEventId, handler, timeoutMs⟩])
  later : Steps (machine cfg) anyStep asked
    (first ++ .forwarded info frames
        (some ⟨asking.requests, asking.nextEventId, handler, timeoutMs⟩) ::
      (second ++ .arrived info header payload :: third)) taking
  named : requestOf cfg header = some (eventId, name)
  takes : (machine cfg).step taking (.worker worker) =
    some (done, .popped worker (.handleData info header payload) :: emitted)

namespace Story
variable {info : ConnectionInfo} {name : Bytes} {svc : ServiceObject}
  (story : Story cfg info name svc)

def ctrl : Controller :=
  ⟨story.asking.requests, story.asking.nextEventId, story.handler, story.timeoutMs⟩

/-- What happened since the registration until the peer's message was read. -/
def answered : List Event :=
  story.between ++ (.fetched story.thread info story.ctrl ::
    (story.first ++ .forwarded info story.frames (some story.ctrl) :: story.second))

/-- What happened since the registration until the worker took the message. -/
def history : List Event :=
  story.answered ++ .arrived info story.header story.payload :: story.third

/-- The worker takes the message that was received then, not an earlier one. -/
def InTurn : Prop :=
  (taken info (story.before ++ story.history)).length =
    (received info (story.before ++ story.answered)).length

theorem registered_run : Run (machine cfg) anyStep story.before story.registered := by
  have next := story.run.next trivial story.registers
  rwa [List.append_nil] at next

theorem asking_run :
    Run (machine cfg) anyStep (story.before ++ story.between) story.asking :=
  story.registered_run.trans story.others

theorem asked_run : Run (machine cfg) anyStep (story.before ++ story.between ++
    [.fetched story.thread info story.ctrl]) story.asked :=
  story.asking_run.next trivial story.asks

theorem registration_travels :
    .queued (cfg.getWorkerIndex info) (.registerSvc info name svc) ∈ story.between ∨
      Ahead story.thread (.registerSvc info name svc) (fun _ => False) story.asking := by
  have others := story.others
  refine Steps.invariant (fun events process =>
    .queued (cfg.getWorkerIndex info) (.registerSvc info name svc) ∈ events ∨
      Ahead story.thread (.registerSvc info name svc) (fun _ => False) process) ?_ ?_ others
  · exact .inr ⟨_, [], registerService_pipes story.registers, fun other _ => id⟩
  · intro events process action emitted after _ before _ fired
    rcases before with queued | ahead
    · exact .inl (List.mem_append_left _ queued)
    · rcases ahead.step (step_move fired) with handled | ⟨still, _⟩
      · exact .inl (List.mem_append_right _ (handled_registerSvc (step_move fired) handled))
      · exact .inr still

/-- The broker has not read the request while the registration is in front of it. -/
theorem registration_first {events : List Event} {state : Process}
    (steps : Steps (machine cfg) anyStep story.asked events state) :
    .queued (cfg.getWorkerIndex info) (.registerSvc info name svc) ∈ story.between ++ events ∨
      Ahead story.thread (.registerSvc info name svc)
          (fun cmd => ∃ target data, cmd = .request target story.ctrl data) state ∧
        ∀ sender target data, .handled sender (.request target story.ctrl data) ∉
          story.before ++ story.between ++ [.fetched story.thread info story.ctrl] ++ events := by
  have ledger := ledger_of_run story.asking_run
  have fresh : ∀ request ∈ issued (story.before ++ story.between), request.ctrl ≠ story.ctrl := by
    intro request member same
    have low := ledger.serial_lt member
    rw [same] at low
    exact Nat.lt_irrefl _ low
  refine Steps.invariant (fun events state =>
    .queued (cfg.getWorkerIndex info) (.registerSvc info name svc) ∈ story.between ++ events ∨
      Ahead story.thread (.registerSvc info name svc)
          (fun cmd => ∃ target data, cmd = .request target story.ctrl data) state ∧
        ∀ sender target data, .handled sender (.request target story.ctrl data) ∉
          story.before ++ story.between ++ [.fetched story.thread info story.ctrl] ++ events)
    ?_ ?_ steps
  · rcases story.registration_travels with queued | ⟨front, rest, inside, _⟩
    · exact .inl (List.mem_append_left _ queued)
    · have pipes := request_pipes story.asks
      refine .inr ⟨⟨front, rest, by rw [pipes, inside], ?_⟩, ?_⟩
      · rintro other member ⟨target, data, rfl⟩
        have waiting : (⟨story.thread, target, story.ctrl⟩ : Issued) ∈
            requestsIn story.thread (story.asking.pipes story.thread) := by
          rw [inside]
          exact List.mem_filterMap.mpr ⟨_, List.mem_append_left _ member, rfl⟩
        exact fresh _ (ledger.waiting_issued waiting) rfl
      · intro sender target data member
        rw [List.append_nil] at member
        rcases List.mem_append.mp member with old | new
        · exact fresh _ (ledger.handled_issued (mem_handledRequests.mpr ⟨data, old⟩)) rfl
        · simp at new
  · intro events process action emitted after earlier before _ fired
    rcases before with queued | ⟨ahead, unread⟩
    · refine .inl ?_
      rw [← List.append_assoc]
      exact List.mem_append_left _ queued
    · rcases ahead.step (step_move fired) with handled | ⟨still, apart⟩
      · exact .inl (List.mem_append_right _ (List.mem_append_right _
          (handled_registerSvc (step_move fired) handled)))
      · refine .inr ⟨still, fun sender target data member => ?_⟩
        rw [← List.append_assoc] at member
        rcases List.mem_append.mp member with old | new
        · exact unread sender target data old
        · obtain ⟨_, _, rest, _, _, _, _, _, waiting, _⟩ := handled_move (step_move fired) new
          have now := ledger_of_run (story.asked_run.trans earlier)
          have own : (⟨story.thread, info, story.ctrl⟩ : Issued) ∈ issued (story.before ++
              story.between ++ [.fetched story.thread info story.ctrl] ++ events) := by
            simp [issued]
          have listed : (⟨sender, target, story.ctrl⟩ : Issued) ∈
              requestsIn sender (process.pipes sender) := by
            rw [waiting]
            exact List.mem_filterMap.mpr ⟨_, List.mem_cons_self, rfl⟩
          have same := now.serial_injective (now.waiting_issued listed) own rfl
          obtain ⟨rfl, rfl⟩ := (Issued.mk.inj same).imp_right And.left
          exact apart _ new ⟨_, data, rfl⟩

theorem reading : ∃ state, Steps (machine cfg) anyStep story.asked
    (story.first ++ .forwarded info story.frames (some story.ctrl) :: story.second) state := by
  have later : Steps (machine cfg) anyStep story.asked
      ((story.first ++ .forwarded info story.frames (some story.ctrl) :: story.second) ++
        .arrived info story.header story.payload :: story.third) story.taking := by
    rw [List.append_assoc]
    exact story.later
  cases later.occurs with
  | «at» events pre post rest state action after earlier permitted fired left remaining right =>
    have alone := (arrived_move (step_move fired) (List.mem_append_right pre List.mem_cons_self)).1
    have none : pre = [] := by
      cases pre with
      | nil => rfl
      | cons head tail =>
        simp only [List.cons_append, List.cons.injEq] at alone
        cases tail <;> simp at alone
    rw [left, none, List.append_nil]
    exact ⟨state, earlier⟩

theorem answered_run : ∃ state, Run (machine cfg) anyStep (story.before ++ story.answered) state := by
  obtain ⟨state, steps⟩ := story.reading
  refine ⟨state, ?_⟩
  have run := story.asked_run.trans steps
  simpa [answered] using run

theorem taking_run : Run (machine cfg) anyStep (story.before ++ story.history) story.taking := by
  have run := story.asked_run.trans story.later
  simpa [history, answered, ctrl] using run

theorem queued_before_answer :
    .queued (cfg.getWorkerIndex info) (.registerSvc info name svc) ∈ story.answered := by
  obtain ⟨state, steps⟩ := story.reading
  rcases story.registration_first steps with queued | ⟨_, unread⟩
  · unfold answered
    rcases List.mem_append.mp queued with early | late
    · exact List.mem_append_left _ early
    · exact List.mem_append_right _ (List.mem_cons_of_mem _ late)
  · have started := (provenance_of_run (story.asked_run.trans steps)).forwards info story.frames
      story.ctrl (by simp)
    obtain ⟨⟨thread, handled⟩, _⟩ := started
    obtain ⟨data, member⟩ := mem_handledRequests.mp handled
    exact absurd member (unread thread info data)

theorem taken_before_answer (inTurn : story.InTurn) :
    .popped (cfg.getWorkerIndex info) (.registerSvc info name svc) ∈ story.history ∧
      story.worker = cfg.getWorkerIndex info := by
  obtain ⟨state, reading⟩ := story.answered_run
  have taking := story.taking_run
  obtain ⟨rest, unread⟩ : ∃ rest, (story.taking.workers story.worker).queue =
      .handleData info story.header story.payload :: rest := by
    obtain ⟨index, cmd, rest, result, acted, unread, _, _, report⟩ :=
      worker_move (step_move story.takes) List.mem_cons_self (.inl rfl)
    obtain ⟨rfl, rfl⟩ := Event.popped.inj (List.cons.inj report).1
    exact ⟨rest, unread⟩
  have home : story.worker = cfg.getWorkerIndex info := unread_home taking unread rfl
  rw [home] at unread
  have delivered := delivered_of_run taking (cfg.getWorkerIndex info)
  have whole : queuedFor (cfg.getWorkerIndex info) (story.before ++ story.history) =
      queuedFor (cfg.getWorkerIndex info) (story.before ++ story.answered) ++
        queuedFor (cfg.getWorkerIndex info)
          (.arrived info story.header story.payload :: story.third) := by
    rw [← queuedFor_append, history, List.append_assoc]
  rw [whole, unread, List.append_assoc, List.cons_append] at delivered
  have count := inTurn
  rw [InTurn, taken_processed taking, received_queued reading] at count
  have done := prefix_of_count (dataOf info) delivered (by simp [dataOf]) count
  have before := delivered_of_run story.run (cfg.getWorkerIndex info)
  rw [queuedFor_append, processed_append, before, List.append_assoc, List.append_assoc,
    List.prefix_append_right_inj, ← List.append_assoc] at done
  have listed : WorkerCmd.registerSvc info name svc ∈
      processed (cfg.getWorkerIndex info) story.history :=
    done.subset (List.mem_append_right _ (mem_queuedFor.mpr story.queued_before_answer))
  obtain ⟨event, member, shown⟩ := List.mem_filterMap.mp listed
  cases event with
  | popped worker cmd =>
    simp only [Option.ite_none_right_eq_some, Option.some.injEq] at shown
    obtain ⟨rfl, rfl⟩ := shown
    exact ⟨member, home⟩
  | _ => cases shown

end Story

/-- The peer's request meets the registered service or one that was registered
later under its name, and is not refused. -/
theorem registration_serves {info : ConnectionInfo} {name : Bytes} {svc : ServiceObject}
    (story : Story cfg info name svc) (inTurn : story.InTurn) :
    ∃ before rest current method,
      story.history = before ++ .popped story.worker (.registerSvc info name svc) :: rest ∧
      (current = svc ∨ .popped story.worker (.registerSvc info name current) ∈ rest) ∧
      .dispatched info story.eventId name (.own current) method story.payload ∈ story.emitted ∧
      ∀ target eventId refused, .noSuchService target eventId refused ∉ story.emitted := by
  obtain ⟨popped, home⟩ := story.taken_before_answer inTurn
  obtain ⟨before, rest, split⟩ := List.append_of_mem popped
  have whole : story.before ++ story.history = (story.before ++ before) ++
      .popped (cfg.getWorkerIndex info) (.registerSvc info name svc) :: rest := by
    rw [split, List.append_assoc]
  obtain ⟨current, found, since⟩ := registered_lookup story.taking_run whole
  obtain ⟨index, cmd, queue, result, acted, unread, same, _, report⟩ :=
    worker_move (step_move story.takes) List.mem_cons_self (.inl rfl)
  obtain ⟨taken, reported⟩ := List.cons.inj report
  obtain ⟨rfl, rfl⟩ := Event.popped.inj taken
  have cached : Cached story.worker (story.before ++ story.history)
      { story.taking.workers story.worker with queue := queue }.handlers :=
    cached_of_run story.taking_run story.worker
  rw [← home] at found since split
  obtain ⟨⟨method, dispatched⟩, unrefused⟩ := exec_dispatches story.taking.factories
    story.taking.nextService cached story.payload found story.named
  rw [same, ← reported] at dispatched unrefused
  exact ⟨before, rest, current, method, split, since, dispatched, unrefused⟩

/-! A dealer that registers service 2 and lets its server call it. -/

def connected : Process :=
  (reached (machine plain) [.thread (.app 0) (.connect [1]), .loopTop, .timers 0,
    .poll (.ready [true]), .dispatch (.frontend (.app 0) ⟨true, 0, 0⟩), .flush, .dispatch .nothing,
    .thread (.app 0) .receive]).1

def registered : Process :=
  (((machine plain).step connected
    (.thread (.app 0) (.registerService (.dealer 1) [2] ⟨3, 5⟩))).getD (connected, [])).1

def asked : Process :=
  (((machine plain).step registered
    (.thread (.app 0) (.request (.dealer 1) [8] [9] [] none (-1)))).getD (registered, [])).1

/-- The broker reads both commands, the server calls back, and the worker goes
through its queue up to the call. -/
def calledBack : List Action :=
  [.thread (.app 0) (.sendRequest true), .loopTop, .timers 0, .poll (.ready [true, false]),
    .dispatch (.frontend (.app 0) ⟨true, 0, 0⟩), .flush, .dispatch .nothing, .dispatch .nothing,
    .loopTop, .timers 0, .poll (.ready [true, false]), .dispatch (.frontend (.app 0) ⟨true, 0, 0⟩),
    .flush, .flush, .dispatch .nothing, .dispatch .nothing, .loopTop, .timers 0,
    .poll (.ready [false, true]), .dispatch .nothing,
    .dispatch (.message ([] :: requestFrames protobuf 7 [2] [3] [4])), .flush, .worker 0, .worker 0]

abbrev waiting : Process × List Event := reachedFrom (machine plain) asked calledBack

theorem waiting_events : waiting.2 = waiting.2.take 5 ++
    .forwarded (.dealer 1) (Broker.wireFrames (.dealer 1) (requestFrames protobuf 1 [8] [9] []))
        (some ⟨0, 1, none, -1⟩) ::
      ([] ++ .arrived (.dealer 1) (protobuf.serializeHeader ⟨some ⟨some 7, some [2], some [3]⟩, none⟩)
        [4] :: waiting.2.drop 7) := by
  decide +kernel

def callBack : Story plain (.dealer 1) [2] ⟨3, 5⟩ where
  thread := .app 0
  worker := 0
  start := connected
  registered := registered
  asking := registered
  asked := asked
  taking := waiting.1
  done := (((machine plain).step waiting.1 (.worker 0)).getD (waiting.1, [])).1
  before := (reached (machine plain) [.thread (.app 0) (.connect [1]), .loopTop, .timers 0,
    .poll (.ready [true]), .dispatch (.frontend (.app 0) ⟨true, 0, 0⟩), .flush, .dispatch .nothing,
    .thread (.app 0) .receive]).2
  between := []
  first := waiting.2.take 5
  second := []
  third := waiting.2.drop 7
  emitted := [.dispatched (.dealer 1) 7 [2] (.own ⟨3, 5⟩) [3] [4]]
  service := [8]
  method := [9]
  request := []
  handler := none
  timeoutMs := -1
  frames := Broker.wireFrames (.dealer 1) (requestFrames protobuf 1 [8] [9] [])
  header := protobuf.serializeHeader ⟨some ⟨some 7, some [2], some [3]⟩, none⟩
  payload := [4]
  eventId := 7
  run := run_reached _ _
  registers := step_of_enabled (by decide +kernel) (by decide +kernel)
  others := .refl
  asks := step_of_enabled (by decide +kernel) (by decide +kernel)
  later := waiting_events ▸ steps_reachedFrom (machine plain) asked calledBack
  named := by decide +kernel
  takes := step_of_enabled (by decide +kernel) (by decide +kernel)

instance {info : ConnectionInfo} {name : Bytes} {svc : ServiceObject}
    (story : Story cfg info name svc) : Decidable story.InTurn :=
  inferInstanceAs (Decidable (_ = _))

theorem registration_serves_callBack :
    ∃ before rest current method,
      callBack.history =
        before ++ .popped callBack.worker (.registerSvc (.dealer 1) [2] ⟨3, 5⟩) :: rest ∧
      (current = ⟨3, 5⟩ ∨ .popped callBack.worker (.registerSvc (.dealer 1) [2] current) ∈ rest) ∧
      .dispatched (.dealer 1) callBack.eventId [2] (.own current) method callBack.payload ∈
        callBack.emitted ∧
      ∀ target eventId refused, .noSuchService target eventId refused ∉ callBack.emitted :=
  registration_serves callBack (by decide +kernel)

end Rpcz.Registration
