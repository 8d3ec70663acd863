import Rpcz.RequestLog

/-!
The order of a request's commands when peers answer only what they were asked:
a response frame with a request's event id arrives on that request's connection,
after the broker forwarded the request. Then the worker of the connection gets
the start of the rpc first and its answers behind it, and no other worker gets
any of them.
-/

namespace Rpcz.ResponseOrder
open Automaton Message EventLog ReactorLoop RequestHandlers WorkerThread BrokerThread ProcessModel
  Moves PendingTable History PendingMap EventIds RequestLog

/-- Delay and duplication are unrestricted. -/
def RespondsInTurn (cfg : Config) (events : List Event) : Prop :=
  ∀ before info header payload rest, events = before ++ .arrived info header payload :: rest →
    ∀ request ∈ issued events, cfg.responseId header = some request.ctrl.eventId →
      request.info = info ∧ ∃ frames, .forwarded info frames (some request.ctrl) ∈ before

/-- Whether an event that follows `before` keeps the condition. -/
def inTurn (cfg : Config) (requests : List Issued) (before : List Event) : Event → Bool
  | .arrived info header _ => requests.all fun request =>
    cfg.responseId header ≠ some request.ctrl.eventId ||
      (request.info = info && before.any fun
        | .forwarded sent _ cause => sent = info && cause = some request.ctrl
        | _ => false)
  | _ => true

def allInTurn (cfg : Config) (requests : List Issued) (before : List Event) : List Event → Bool
  | [] => true
  | event :: rest =>
    inTurn cfg requests before event && allInTurn cfg requests (before ++ [event]) rest

theorem allInTurn_split {cfg : Config} {requests : List Issued} {before first rest : List Event}
    {event : Event} (kept : allInTurn cfg requests before (first ++ event :: rest) = true) :
    inTurn cfg requests (before ++ first) event = true := by
  induction first generalizing before with
  | nil =>
    simp only [List.nil_append, allInTurn, Bool.and_eq_true] at kept
    simpa using kept.1
  | cons head tail ih =>
    simp only [List.cons_append, allInTurn, Bool.and_eq_true] at kept
    simpa using ih kept.2

theorem respondsInTurn_of_check {cfg : Config} {events : List Event}
    (kept : allInTurn cfg (issued events) [] events = true) : RespondsInTurn cfg events := by
  intro before info header payload rest split request member carried
  rw [split] at kept member
  have turn := allInTurn_split kept
  simp only [inTurn, List.nil_append, List.all_eq_true] at turn
  have own := turn request member
  simp only [carried, ne_eq, not_true_eq_false, decide_false, Bool.false_or, Bool.and_eq_true,
    decide_eq_true_eq, List.any_eq_true] at own
  obtain ⟨same, event, inside, shown⟩ := own
  cases event with
  | forwarded sent frames cause =>
    simp only [Bool.and_eq_true, decide_eq_true_eq] at shown
    obtain ⟨rfl, rfl⟩ := shown
    exact ⟨same, frames, inside⟩
  | _ => simp at shown

theorem RespondsInTurn.earlier {cfg : Config} {first second : List Event}
    (responds : RespondsInTurn cfg (first ++ second)) : RespondsInTurn cfg first := by
  intro before info header payload rest split request member carried
  refine responds before info header payload (rest ++ second) (by rw [split]; simp) request ?_ carried
  rw [issued_append]
  exact List.mem_append_left _ member

structure Logged (cfg : Config) (events : List Event) (request : Issued) : Prop where
  elsewhere : ∀ worker, worker ≠ cfg.getWorkerIndex request.info →
    atKey request.ctrl.eventId (opsOf cfg (queuedFor worker events)) = []
  unstarted : .queued (cfg.getWorkerIndex request.info) (.startRpc request.ctrl) ∉ events →
    atKey request.ctrl.eventId (opsOf cfg (queuedFor (cfg.getWorkerIndex request.info) events)) = [] ∧
      outcomesFor cfg request.ctrl.eventId events = []
  started : .queued (cfg.getWorkerIndex request.info) (.startRpc request.ctrl) ∈ events →
    atKey request.ctrl.eventId (opsOf cfg (queuedFor (cfg.getWorkerIndex request.info) events)) =
      .opening request.ctrl.eventId request.ctrl ::
        (outcomesFor cfg request.ctrl.eventId events).map (.closing request.ctrl.eventId)

variable {cfg : Config} {process after : Process} {events emitted : List Event}
  {allowed : Process → Action → Prop}

theorem answer_started (ledger : Ledger events process) (few : process.requests < 2 ^ 64)
    (known : Provenance cfg events process) (responds : RespondsInTurn cfg events)
    {answer : Answer} (member : answer ∈ answers cfg events) {request : Issued}
    (made : request ∈ issued events) (same : answer.eventId = request.ctrl.eventId) :
    answer.worker = cfg.getWorkerIndex request.info ∧ Started cfg events request.info request.ctrl := by
  obtain ⟨event, inside, shown⟩ := List.mem_filterMap.mp member
  cases event with
  | arrived info header payload =>
    simp only [answerOf, Option.map_eq_some_iff] at shown
    obtain ⟨response, readable, rfl⟩ := shown
    obtain ⟨before, rest, split⟩ := List.append_of_mem inside
    have carried : cfg.responseId header = some request.ctrl.eventId := by
      simp [Config.responseId, readable, ← same]
    obtain ⟨rfl, frames, forwarded⟩ := responds before info header payload rest split request made carried
    refine ⟨rfl, known.forwards request.info frames request.ctrl ?_⟩
    rw [split]
    exact List.mem_append_left _ forwarded
  | timerFired eventId workerIndex =>
    simp only [answerOf, Option.some.injEq] at shown
    subst shown
    obtain ⟨info, ctrl, started, _, timer⟩ := known.fired eventId workerIndex inside
    simp only [TimeoutClosure.mk.injEq] at timer
    obtain ⟨rfl, rfl⟩ := timer
    obtain ⟨thread, listed⟩ := started.issued ledger
    have equal := ledger.eventId_injective few listed made same
    subst equal
    exact ⟨Nat.mod_eq_of_lt (cfg.getWorkerIndex_lt info), started⟩
  | _ => simp [answerOf] at shown

theorem atKey_answers (id : UInt64) (worker : Nat) (listed : List Answer) :
    atKey id ((listed.filter (fun answer => answer.worker = worker)).map Answer.op) =
      (((listed.filter (fun answer => answer.eventId = id)).filter
        (fun answer => answer.worker = worker)).map Answer.outcome).map (.closing id) := by
  induction listed with
  | nil => rfl
  | cons answer rest ih =>
    by_cases target : answer.worker = worker
    · by_cases here : answer.eventId = id
      · subst here
        simp only [target, decide_true, List.filter_cons_of_pos, List.map_cons, atKey, Answer.op,
          Op.key] at ih ⊢
        rw [ih]
      · have other : ¬ (Answer.op answer).key = id := here
        simp only [target, decide_true, List.filter_cons_of_pos, List.map_cons, atKey, other,
          here, decide_false, Bool.false_eq_true, not_false_eq_true, List.filter_cons_of_neg] at ih ⊢
        exact ih
    · by_cases here : answer.eventId = id
      · simp only [target, here, decide_true, decide_false, Bool.false_eq_true, not_false_eq_true,
          List.filter_cons_of_neg, List.filter_cons_of_pos] at ih ⊢
        exact ih
      · simp only [target, here, decide_false, Bool.false_eq_true, not_false_eq_true,
          List.filter_cons_of_neg] at ih ⊢
        exact ih

theorem Logged.answer_step {request : Issued} (logged : Logged cfg events request)
    (recorded : ∀ worker, opsOf cfg (queuedFor worker emitted) =
      ((answers cfg emitted).filter (fun answer => answer.worker = worker)).map Answer.op)
    (unstarted : ∀ worker ctrl, .queued worker (.startRpc ctrl) ∉ emitted)
    (own : ∀ answer ∈ answers cfg emitted, answer.eventId = request.ctrl.eventId →
      answer.worker = cfg.getWorkerIndex request.info ∧
        .queued (cfg.getWorkerIndex request.info) (.startRpc request.ctrl) ∈ events) :
    Logged cfg (events ++ emitted) request := by
  have same : .queued (cfg.getWorkerIndex request.info) (.startRpc request.ctrl) ∈ events ++ emitted ↔
      .queued (cfg.getWorkerIndex request.info) (.startRpc request.ctrl) ∈ events := by
    simp [unstarted]
  have aimed : ((answers cfg emitted).filter
      (fun answer => answer.eventId = request.ctrl.eventId)).filter
        (fun answer => answer.worker = cfg.getWorkerIndex request.info) =
      (answers cfg emitted).filter (fun answer => answer.eventId = request.ctrl.eventId) := by
    refine List.filter_eq_self.mpr (fun answer member => ?_)
    obtain ⟨listed, id⟩ := List.mem_filter.mp member
    simp only [decide_eq_true_eq] at id ⊢
    exact (own answer listed id).1
  constructor
  · intro worker apart
    have foreign : ((answers cfg emitted).filter
        (fun answer => answer.eventId = request.ctrl.eventId)).filter
          (fun answer => answer.worker = worker) = [] := by
      refine List.filter_eq_nil_iff.mpr (fun answer member => ?_)
      obtain ⟨listed, id⟩ := List.mem_filter.mp member
      simp only [decide_eq_true_eq] at id ⊢
      rw [(own answer listed id).1]
      exact fun equal => apart equal.symm
    rw [queuedFor_append, opsOf_append, atKey_append, logged.elsewhere worker apart, recorded,
      atKey_answers, foreign]
    rfl
  · intro absent
    rw [same] at absent
    obtain ⟨ops, outcomes⟩ := logged.unstarted absent
    have silent : (answers cfg emitted).filter
        (fun answer => answer.eventId = request.ctrl.eventId) = [] := by
      refine List.filter_eq_nil_iff.mpr (fun answer listed => ?_)
      simp only [decide_eq_true_eq]
      exact fun id => absent (own answer listed id).2
    rw [queuedFor_append, opsOf_append, atKey_append, ops, recorded, atKey_answers, outcomesFor_append,
      outcomes, outcomesFor, silent]
    exact ⟨rfl, rfl⟩
  · intro present
    rw [same] at present
    rw [queuedFor_append, opsOf_append, atKey_append, logged.started present, recorded, atKey_answers,
      aimed, outcomesFor_append, List.map_append, List.cons_append]
    rfl

theorem Logged.start_step {request : Issued} (logged : Logged cfg events request) (started : Issued)
    (fresh : .queued (cfg.getWorkerIndex started.info) (.startRpc started.ctrl) ∉ events)
    (distinct : request.ctrl.eventId = started.ctrl.eventId → request = started)
    (queued : ∀ worker, queuedFor worker emitted =
      if worker = cfg.getWorkerIndex started.info then [.startRpc started.ctrl] else [])
    (silent : answers cfg emitted = [])
    (present : .queued (cfg.getWorkerIndex started.info) (.startRpc started.ctrl) ∈ emitted) :
    Logged cfg (events ++ emitted) request := by
  have outcomes : outcomesFor cfg request.ctrl.eventId emitted = [] := by simp [outcomesFor, silent]
  by_cases here : request = started
  · subst here
    obtain ⟨ops, none_yet⟩ := logged.unstarted fresh
    constructor
    · intro worker apart
      rw [queuedFor_append, opsOf_append, atKey_append, logged.elsewhere worker apart, queued,
        if_neg apart]
      rfl
    · intro absent
      exact absurd (List.mem_append_right _ present) absent
    · intro _
      rw [queuedFor_append, opsOf_append, atKey_append, ops, queued, if_pos rfl, outcomesFor_append,
        none_yet, outcomes]
      simp [opsOf, opOf, atKey, Op.key]
  · have apart : started.ctrl.eventId ≠ request.ctrl.eventId := fun equal => here (distinct equal.symm)
    have other : ∀ worker, atKey request.ctrl.eventId (opsOf cfg (queuedFor worker emitted)) = [] := by
      intro worker
      rw [queued]
      split <;> simp [opsOf, opOf, atKey, Op.key, apart]
    have same : .queued (cfg.getWorkerIndex request.info) (.startRpc request.ctrl) ∈ events ++ emitted ↔
        .queued (cfg.getWorkerIndex request.info) (.startRpc request.ctrl) ∈ events := by
      constructor
      · intro member
        rcases List.mem_append.mp member with old | new
        · exact old
        · have listed : WorkerCmd.startRpc request.ctrl ∈
              queuedFor (cfg.getWorkerIndex request.info) emitted :=
            List.mem_filterMap.mpr ⟨_, new, by simp⟩
          rw [queued] at listed
          split at listed
          · simp only [List.mem_singleton, WorkerCmd.startRpc.injEq] at listed
            exact absurd (by rw [listed]) apart
          · simp at listed
      · exact List.mem_append_left _
    constructor
    · intro worker away
      rw [queuedFor_append, opsOf_append, atKey_append, logged.elsewhere worker away, other]
      rfl
    · intro absent
      rw [same] at absent
      obtain ⟨ops, none_yet⟩ := logged.unstarted absent
      rw [queuedFor_append, opsOf_append, atKey_append, ops, other, outcomesFor_append, none_yet,
        outcomes]
      exact ⟨rfl, rfl⟩
    · intro begun
      rw [same] at begun
      rw [queuedFor_append, opsOf_append, atKey_append, logged.started begun, other,
        outcomesFor_append, outcomes, List.append_nil, List.append_nil]

theorem Logged.fetch {request : Issued} (ledger : Ledger events process)
    (laterLedger : Ledger (events ++ emitted) after) (few : after.requests < 2 ^ 64)
    (known : Provenance cfg events process) (laterKnown : Provenance cfg (events ++ emitted) after)
    (responds : RespondsInTurn cfg (events ++ emitted))
    (made : request ∈ issued (events ++ emitted)) (fresh : request.ctrl.serial = process.requests)
    (handled : handledRequests emitted = []) (queued : ∀ worker, queuedFor worker emitted = [])
    (silent : answers cfg emitted = []) : Logged cfg (events ++ emitted) request := by
  have unread : ¬ Started cfg (events ++ emitted) request.info request.ctrl := by
    intro started
    obtain ⟨⟨thread, member⟩, _⟩ := started
    rw [handledRequests_append, handled, List.append_nil] at member
    have below := ledger.serial_lt (ledger.handled_issued member)
    simp only [fresh, Nat.lt_irrefl] at below
  have unanswered : ∀ answer ∈ answers cfg events, answer.eventId ≠ request.ctrl.eventId := by
    intro answer member same
    have listed : answer ∈ answers cfg (events ++ emitted) := by
      rw [answers_append]
      exact List.mem_append_left _ member
    exact unread (answer_started laterLedger few laterKnown responds listed made same).2
  have unqueued : ∀ worker, atKey request.ctrl.eventId (opsOf cfg (queuedFor worker events)) = [] := by
    intro worker
    refine List.filter_eq_nil_iff.mpr (fun op member => ?_)
    obtain ⟨cmd, listed, kind⟩ := List.mem_filterMap.mp member
    obtain ⟨event, inside, shown⟩ := List.mem_filterMap.mp listed
    have inside' : .queued worker cmd ∈ events := by
      cases event <;> simp at shown
      obtain ⟨rfl, rfl⟩ := shown
      exact inside
    simp only [decide_eq_true_eq]
    cases op with
    | opening eventId ctrl =>
      obtain ⟨rfl, rfl⟩ := exec_opening cfg kind
      intro same
      obtain ⟨info, _, started⟩ := known.starts inside'
      obtain ⟨thread, old⟩ := started.issued ledger
      have equal := laterLedger.eventId_injective few
        (by rw [issued_append]; exact List.mem_append_left _ old) made same
      subst equal
      exact unread (started.later emitted)
    | closing eventId outcome =>
      intro same
      exact unanswered _ (known.closings inside' kind) same
  have outcomes : outcomesFor cfg request.ctrl.eventId (events ++ emitted) = [] := by
    simp only [outcomesFor, answers_append, silent, List.append_nil, List.map_eq_nil_iff,
      List.filter_eq_nil_iff, decide_eq_true_eq]
    exact unanswered
  have ops : ∀ worker,
      atKey request.ctrl.eventId (opsOf cfg (queuedFor worker (events ++ emitted))) = [] := by
    intro worker
    rw [queuedFor_append, queued, List.append_nil]
    exact unqueued worker
  refine ⟨fun worker _ => ops worker, fun _ => ⟨ops _, outcomes⟩, fun begun => absurd ?_ unread⟩
  obtain ⟨info, _, started⟩ := laterKnown.starts begun
  obtain ⟨thread, old⟩ := started.issued laterLedger
  have place := congrArg Issued.info (laterLedger.eventId_injective few old made rfl)
  exact place ▸ started

theorem recorded_emission {result : Broker × List Event} (recorded : Recorded cfg result)
    (silent : ∀ event ∈ result.2, origin event = .broker) (read : List Event)
    (commands : ∀ event ∈ read, origin event = .handled) (worker : Nat) :
    opsOf cfg (queuedFor worker (read ++ (result.2 ++ queuedEvents result.1.outbox))) =
      ((answers cfg (read ++ (result.2 ++ queuedEvents result.1.outbox))).filter
        (fun answer => answer.worker = worker)).map Answer.op := by
  have noRead : queuedFor worker read = [] ∧ answers cfg read = [] :=
    ⟨queuedFor_other worker (fun event member => by rw [commands event member]; decide),
      answers_other (fun event member => by rw [commands event member]; decide)⟩
  have noReport : queuedFor worker result.2 = [] :=
    queuedFor_other worker (fun event member => by rw [silent event member]; decide)
  have noQueue : answers cfg (queuedEvents result.1.outbox) = [] :=
    answers_other (fun event member => by rw [queuedEvents_origin event member]; decide)
  rw [queuedFor_append, queuedFor_append, answers_append, answers_append, noRead.1, noRead.2, noReport,
    noQueue, queuedFor_queuedEvents, List.nil_append, List.nil_append, List.nil_append,
    List.append_nil]
  exact recorded worker

theorem not_queued_emission {result : Broker × List Event}
    (silent : ∀ event ∈ result.2, origin event = .broker) {read : List Event}
    (commands : ∀ event ∈ read, origin event = .handled)
    (starts : ∀ worker ctrl, .push worker (.startRpc ctrl) ∉ result.1.outbox) (worker : Nat)
    (ctrl : Controller) :
    .queued worker (.startRpc ctrl) ∉ read ++ (result.2 ++ queuedEvents result.1.outbox) := by
  intro member
  rcases List.mem_append.mp member with first | later
  · have source := commands _ first
    simp [origin] at source
  · rcases List.mem_append.mp later with reported | queued
    · exact not_queued_of_broker silent reported
    · exact starts worker ctrl (mem_queuedEvents.mp queued)

theorem sendRequest_emission (cfg : Config) (broker : Broker) (performed : broker.outbox = [])
    (oracle : Oracle) (info : ConnectionInfo) (ctrl : Controller) (data : List Frame)
    {result : Broker × List Event} (same : broker.sendRequest cfg oracle info ctrl data = result) :
    (∃ fault, result.2 ++ queuedEvents result.1.outbox = [.faulted fault]) ∨
      result.2 ++ queuedEvents result.1.outbox =
        [.queued (cfg.getWorkerIndex info) (.startRpc ctrl)] := by
  obtain ⟨_, outcome⟩ := sendRequest_cases cfg broker performed oracle info ctrl data
  rw [same] at outcome
  rcases outcome with ⟨fault, _, unsent, report⟩ | ⟨socket, outbox, report⟩
  · exact .inl ⟨fault, by rw [unsent, report]; rfl⟩
  · exact .inr (by rw [outbox, report]; rfl)

/-- In every run with fewer than 2^64 requests whose peers respond in turn, the
commands of every request are in order. -/
theorem logged_of_run (run : Run (machine cfg) allowed events process)
    (few : (issued events).length < 2 ^ 64) (responds : RespondsInTurn cfg events) :
    ∀ request ∈ issued events, Logged cfg events request := by
  refine Steps.invariant (fun events _ => (issued events).length < 2 ^ 64 →
    RespondsInTurn cfg events → ∀ request ∈ issued events, Logged cfg events request) ?_ ?_ run
    few responds
  · intro _ _ request member
    simp [issued] at member
  · intro events process action emitted after earlier before permitted fired few responds
    have run := earlier.next permitted fired
    have ledger := ledger_of_run earlier
    have laterLedger := ledger_of_run run
    have known := provenance_of_run earlier
    have laterKnown := provenance_of_run run
    have fewAfter : after.requests < 2 ^ 64 := laterLedger.length ▸ few
    have logged := before (by rw [issued_append, List.length_append] at few; omega) responds.earlier
    have plain : (∀ worker, opsOf cfg (queuedFor worker emitted) =
          ((answers cfg emitted).filter (fun answer => answer.worker = worker)).map Answer.op) →
        (∀ worker ctrl, .queued worker (.startRpc ctrl) ∉ emitted) →
        ∀ request ∈ issued events, Logged cfg (events ++ emitted) request := by
      intro recorded unstarted request member
      refine (logged request member).answer_step recorded unstarted (fun answer listed same => ?_)
      have owned := answer_started laterLedger fewAfter laterKnown responds
        (by rw [answers_append]; exact List.mem_append_right _ listed)
        (by rw [issued_append]; exact List.mem_append_left _ member) same
      refine ⟨owned.1, ?_⟩
      rcases List.mem_append.mp owned.2.2 with old | new
      · exact old
      · exact absurd new (unstarted _ _)
    have quiet : answers cfg emitted = [] →
        (∀ event ∈ emitted, origin event ≠ .queued ∨ ∃ worker, event = .queued worker .quitWorker) →
        ∀ request ∈ issued events, Logged cfg (events ++ emitted) request := by
      intro silent unqueued
      refine plain (fun worker => ?_) (fun worker ctrl member => ?_)
      · rw [silent]
        refine List.filterMap_eq_nil_iff.mpr (fun cmd member => ?_)
        obtain ⟨event, inside, shown⟩ := List.mem_filterMap.mp member
        rcases unqueued event inside with other | ⟨index, rfl⟩
        · cases event <;> simp_all [origin]
        · simp only [Option.ite_none_right_eq_some, Option.some.injEq] at shown
          rw [← shown.2]
          rfl
      · rcases unqueued _ member with other | ⟨index, same⟩
        · simp [origin] at other
        · cases same
    have brokerStep : ∀ (result : Broker × List Event) (read : List Event),
        emitted = read ++ (result.2 ++ queuedEvents result.1.outbox) → Recorded cfg result →
        (∀ event ∈ result.2, origin event = .broker) → (∀ event ∈ read, origin event = .handled) →
        (∀ worker ctrl, .push worker (.startRpc ctrl) ∉ result.1.outbox) →
        ∀ request ∈ issued (events ++ emitted), Logged cfg (events ++ emitted) request := by
      intro result read same recorded silent commands starts request member
      refine plain ?_ ?_ request ?_
      · rw [same]
        exact recorded_emission recorded silent read commands
      · rw [same]
        exact not_queued_emission silent commands starts
      · have none_made : issued emitted = [] := by
          rw [same]
          refine issued_other (fun event inside => ?_)
          rcases List.mem_append.mp inside with first | later
          · rw [commands event first]; decide
          · rcases List.mem_append.mp later with reported | queued
            · rw [silent event reported]; decide
            · rw [queuedEvents_origin event queued]; decide
        rw [issued_append, none_made, List.append_nil] at member
        exact member
    have quietStep : answers cfg emitted = [] →
        (∀ event ∈ emitted, origin event ≠ .queued ∨ ∃ worker, event = .queued worker .quitWorker) →
        issued emitted = [] →
        ∀ request ∈ issued (events ++ emitted), Logged cfg (events ++ emitted) request := by
      intro silent unqueued none_made request member
      rw [issued_append, none_made, List.append_nil] at member
      exact quiet silent unqueued request member
    cases step_move fired with
    | thread thread action after emitted running move =>
      obtain ⟨_, _, _, _, silent⟩ := threadMove_frame move
      have unanswered : answers cfg emitted = [] :=
        answers_other (fun event member => by rw [silent event member]; decide)
      have unqueued : ∀ event ∈ emitted,
          origin event ≠ .queued ∨ ∃ worker, event = .queued worker .quitWorker :=
        fun event member => .inl (by rw [silent event member]; decide)
      intro request member
      rw [issued_append] at member
      rcases List.mem_append.mp member with old | new
      · exact quiet unanswered unqueued request old
      · cases move with
        | request info service method payload handler timeoutMs idle =>
          refine Logged.fetch ledger laterLedger fewAfter known laterKnown responds ?_ ?_ rfl
            (fun _ => rfl) rfl
          · rw [issued_append]
            exact List.mem_append_right _ new
          · simp only [issued, List.filterMap_cons, List.filterMap_nil, List.mem_singleton] at new
            rw [new]
        | _ => simp [issued, Process.startBind] at new
    | loopTop phase performed =>
      exact brokerStep _ [] rfl (loopTop_recorded cfg _ performed) (loopTop_origin _) (by simp)
        (loopTop_plain cfg _ performed).starts
    | timers now phase performed =>
      refine brokerStep _ [] rfl (runTimers_recorded cfg _ performed now)
        (runTimers_origin _ _ _) (by simp) ?_
      simp [Broker.runTimers, Broker.emit, performed]
    | poll outcome phase performed =>
      exact brokerStep _ [] rfl (afterPoll_recorded cfg _ performed outcome)
        (afterPoll_origin _ _) (by simp) (afterPoll_plain cfg _ performed outcome).starts
    | finished | quiet => exact quietStep rfl (by simp) rfl
    | outOfRange => exact quietStep rfl (by simp [origin]) rfl
    | command i sender oracle cmd rest phase performed slot unread result same =>
      have silent : ∀ event ∈ result.2, origin event = .broker := same ▸ handleCommand_origin _ _ _ _ _
      cases kind : isRequest cmd with
      | false =>
        have recorded := handleCommand_recorded cfg { process.broker with phase := .dispatch (i + 1) }
          performed oracle sender kind
        have plainStep := handleCommand_plain cfg { process.broker with phase := .dispatch (i + 1) }
          performed oracle sender kind
        rw [same] at recorded plainStep
        exact brokerStep _ [.handled sender cmd] rfl recorded silent (by simp [origin])
          plainStep.starts
      | true =>
        cases cmd with
        | request info ctrl data =>
          have shape := sendRequest_emission cfg { process.broker with phase := .dispatch (i + 1) }
            performed oracle info ctrl data same
          rcases shape with ⟨fault, shape⟩ | shape
          · rw [shape] at quietStep ⊢
            exact quietStep rfl (by simp [origin]) rfl
          · intro request member
            rw [shape] at member ⊢
            have listed : (⟨sender, info, ctrl⟩ : Issued) ∈ requestsIn sender (process.pipes sender) := by
              simp [unread, requestsIn]
            have made := ledger.waiting_issued listed
            have old : request ∈ issued events := by simpa [issued] using member
            refine (logged request old).start_step ⟨sender, info, ctrl⟩ ?_
              (fun equal => ledger.eventId_injective fewAfter old made equal) ?_ rfl (by simp)
            · intro begun
              obtain ⟨info', _, ⟨thread, handled⟩, _⟩ := known.starts begun
              exact ledger.unread_fresh unread
                (List.mem_map_of_mem (f := fun request => request.ctrl.serial) handled)
            · intro worker
              by_cases home : worker = cfg.getWorkerIndex info
              · simp [queuedFor, home]
              · have apart : ¬ cfg.getWorkerIndex info = worker := fun equal => home equal.symm
                simp [queuedFor, home, apart]
        | _ => simp [isRequest] at kind
    | message i callback frames phase performed slot network nonempty result same =>
      have recorded := receive_recorded cfg { process.broker with phase := .dispatch (i + 1) }
        performed callback frames
      have plainStep := receive_plain cfg { process.broker with phase := .dispatch (i + 1) } performed
        callback frames
      rw [same] at recorded plainStep
      exact brokerStep _ [] rfl recorded (same ▸ receive_origin _ _ _ _) (by simp)
        plainStep.starts
    | flush output rest live unperformed =>
      have silent := perform_origin (process.setOutbox rest) output
      refine quietStep ?_ (fun event member => .inl (by rw [silent event member]; decide))
        (issued_other (fun event member => by rw [silent event member]; decide))
      cases output with
      | push | reply => rfl
      | send info socket frames cause =>
        simp only [Process.perform]
        split <;> rfl
    | worker index cmd rest legal running idle unread result same =>
      have silent : ∀ event ∈ result.events, origin event = .worker :=
        same ▸ exec_origin _ _ _ _ _ _
      have apart : ∀ event ∈ Event.popped index cmd :: result.events,
          origin event ≠ .broker ∧ origin event ≠ .queued ∧ origin event ≠ .thread := by
        intro event member
        rcases List.mem_cons.mp member with rfl | later
        · simp [origin]
        · rw [silent event later]; decide
      exact quietStep (answers_other (fun event member => (apart event member).1))
        (fun event member => .inl (apart event member).2.1)
        (issued_other (fun event member => (apart event member).2.2))
    | release | joinWorkers => exact quietStep rfl (by simp [origin]) rfl
    | joinBroker =>
      exact quietStep (answers_other (by simp [origin])) (by simp [origin])
        (issued_other (by simp [origin]))

end Rpcz.ResponseOrder
