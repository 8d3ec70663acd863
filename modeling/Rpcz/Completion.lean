import Rpcz.HeaderCodec
import Rpcz.ResponseOrder

/-!
Exactly-one completion of an rpc: the handler of a request runs at most once,
with the first answer the broker processed for it, and its controller is deleted
right after and never read again.
-/

namespace Rpcz.Completion
open Automaton Message EventLog ReactorLoop RequestHandlers WorkerThread BrokerThread ProcessModel
  Moves PendingTable History PendingMap EventIds RequestLog ResponseOrder HeaderCodec

def closingsOf (id : UInt64) (ops : List PendingOp) : List Outcome :=
  ops.filterMap fun
    | .closing key value => if key = id then some value else none
    | .opening _ _ => none

/-- The responses and timeouts for an event id that a worker dequeued. -/
def dequeuedFor (cfg : Config) (id : UInt64) (worker : Nat) (events : List Event) : List Outcome :=
  closingsOf id (opsOf cfg (processed worker events))

def invocations (ctrl : Controller) (worker : Nat) (events : List Event) : List Outcome :=
  ((completions worker events).filter (fun completion => completion.1 = ctrl)).map Prod.snd

def reads (ctrl : Controller) : Event → Bool
  | .handled _ (.request _ other _) => other = ctrl
  | .popped _ (.startRpc other) => other = ctrl
  | .completed _ other _ => other = ctrl
  | .deleted _ other => other = ctrl
  | _ => false

structure CompletesOnce (cfg : Config) (events : List Event) (process : Process)
    (request : Issued) : Prop where
  /-- Only the worker of the connection dequeues an answer, after the start of the rpc. -/
  startedFirst : ∀ before worker cmd outcome rest, events = before ++ .popped worker cmd :: rest →
    opOf cfg cmd = some (.closing request.ctrl.eventId outcome) →
      worker = cfg.getWorkerIndex request.info ∧ .popped worker (.startRpc request.ctrl) ∈ before
  /-- The broker processes answers after `send_request`. -/
  sentFirst : ∀ before event rest answer, events = before ++ event :: rest →
    answerOf cfg event = some answer → answer.eventId = request.ctrl.eventId →
      ∃ sender data, .handled sender (.request request.info request.ctrl data) ∈ before
  /-- Answers are dequeued in the broker's processing order. -/
  inOrder : dequeuedFor cfg request.ctrl.eventId (cfg.getWorkerIndex request.info) events <+:
    outcomesFor cfg request.ctrl.eventId events
  /-- The handler runs with the first of them and no other. -/
  invoked : invocations request.ctrl (cfg.getWorkerIndex request.info) events =
    (dequeuedFor cfg request.ctrl.eventId (cfg.getWorkerIndex request.info) events).take 1
  invokedElsewhere : ∀ worker, worker ≠ cfg.getWorkerIndex request.info →
    invocations request.ctrl worker events = []
  /-- The controller is deleted right after the invocation and at no other time. -/
  deletedAfter : ∀ before worker outcome rest,
    events = before ++ .completed worker request.ctrl outcome :: rest →
      ∃ later, rest = .deleted worker request.ctrl :: later
  deletedOnly : ∀ before worker rest, events = before ++ .deleted worker request.ctrl :: rest →
    ∃ earlier outcome, before = earlier ++ [.completed worker request.ctrl outcome]
  unread : ∀ before worker rest, events = before ++ .deleted worker request.ctrl :: rest →
    ∀ event ∈ rest, reads request.ctrl event = false
  /-- Later responses and timeouts find nothing. -/
  unchanged : ∀ deleter, .deleted deleter request.ctrl ∈ events → ∀ worker cmd outcome,
    opOf cfg cmd = some (.closing request.ctrl.eventId outcome) → ∀ factories fresh,
      (process.workers worker).exec cfg factories worker fresh cmd =
        ⟨process.workers worker, fresh, [], []⟩
  /-- No answer to an uncompleted request is dropped. -/
  neverDropped : ∀ before worker cmd outcome rest, events = before ++ .popped worker cmd :: rest →
    opOf cfg cmd = some (.closing request.ctrl.eventId outcome) →
    (∀ completer given, .completed completer request.ctrl given ∉ before) →
      ∃ later, rest = .completed worker request.ctrl outcome :: .deleted worker request.ctrl :: later

variable {cfg : Config} {process after : Process} {events emitted : List Event}
  {allowed : Process → Action → Prop}

theorem closingsOf_atKey (id : UInt64) (ops : List PendingOp) :
    closingsOf id (atKey id ops) = closingsOf id ops := by
  induction ops with
  | nil => rfl
  | cons op rest ih =>
    by_cases here : op.key = id
    · have kept : atKey id (op :: rest) = op :: atKey id rest := by simp [atKey, here]
      rw [kept, closingsOf, List.filterMap_cons, closingsOf, List.filterMap_cons]
      simp only [closingsOf] at ih
      rw [ih]
    · have skipped : atKey id (op :: rest) = atKey id rest := by simp [atKey, here]
      rw [skipped, ih]
      cases op with
      | opening => rfl
      | closing key value =>
        have apart : ¬ key = id := here
        simp [closingsOf, apart]

theorem closingsOf_form (id : UInt64) (ctrl : Controller) (outcomes : List Outcome) :
    closingsOf id (.opening id ctrl :: outcomes.map (.closing id)) = outcomes := by
  induction outcomes with
  | nil => rfl
  | cons outcome rest ih => simp [closingsOf]

theorem processed_stem (run : Run (machine cfg) allowed events process) (worker : Nat) :
    processed worker events <+: queuedFor worker events := by
  rw [delivered_of_run run worker, List.append_assoc]
  exact List.prefix_append _ _

/-- What a worker has dequeued under the event id of a request: nothing, or the
start and a first part of the answers. -/
inductive DequeuedForm (cfg : Config) (events : List Event) (request : Issued) : Prop where
  | waiting (ops : atKey request.ctrl.eventId
        (opsOf cfg (processed (cfg.getWorkerIndex request.info) events)) = [])
  | started (outcomes : List Outcome)
      (first : outcomes <+: outcomesFor cfg request.ctrl.eventId events)
      (ops : atKey request.ctrl.eventId
          (opsOf cfg (processed (cfg.getWorkerIndex request.info) events)) =
        .opening request.ctrl.eventId request.ctrl :: outcomes.map (.closing request.ctrl.eventId))

theorem pendingAfter_keyed (cfg : Config) (commands : List WorkerCmd) :
    Keyed Controller.eventId (pendingAfter cfg commands).1 ∧
      ∀ delivery ∈ (pendingAfter cfg commands).2, delivery.entry.eventId = delivery.key := by
  refine replay_keyed (by simp [Keyed]) (fun key entry member => ?_)
  obtain ⟨cmd, _, kind⟩ := List.mem_filterMap.mp member
  exact (exec_opening cfg kind).2.symm

theorem invocations_eq (run : Run (machine cfg) allowed events process) (ctrl : Controller)
    (worker : Nat) :
    invocations ctrl worker events =
      ((deliveredAt ctrl.eventId (pendingAfter cfg (processed worker events)).2).filter
        (fun delivery => delivery.entry = ctrl)).map Delivery.value := by
  have own := (pendingAfter_keyed cfg (processed worker events)).2
  rw [invocations, (replayed_of_run run worker).2, deliveredAt, List.filter_filter, List.filter_map,
    List.map_map]
  have same : (pendingAfter cfg (processed worker events)).2.filter
      ((fun completion : Controller × Outcome => decide (completion.1 = ctrl)) ∘
        fun delivery => (delivery.entry, delivery.value)) =
      (pendingAfter cfg (processed worker events)).2.filter
        (fun delivery => decide (delivery.entry = ctrl) && decide (delivery.key = ctrl.eventId)) := by
    refine List.filter_congr (fun delivery member => ?_)
    by_cases here : delivery.entry = ctrl
    · have key := own delivery member
      rw [here] at key
      simp [here, key]
    · simp [here]
  rw [same]
  rfl

section Run
variable (run : Run (machine cfg) allowed events process) (few : (issued events).length < 2 ^ 64)
  (responds : RespondsInTurn cfg events) {request : Issued} (made : request ∈ issued events)
include run few responds made

theorem dequeued_elsewhere {worker : Nat} (apart : worker ≠ cfg.getWorkerIndex request.info) :
    atKey request.ctrl.eventId (opsOf cfg (processed worker events)) = [] := by
  have logged := logged_of_run run few responds request made
  have inside := ((processed_stem run worker).filterMap (opOf cfg)).filter
    (fun op => decide (op.key = request.ctrl.eventId))
  exact List.prefix_nil.mp (logged.elsewhere worker apart ▸ inside)

theorem dequeued_form : DequeuedForm cfg events request := by
  have logged := logged_of_run run few responds request made
  have inside := ((processed_stem run (cfg.getWorkerIndex request.info)).filterMap
    (opOf cfg)).filter (fun op => decide (op.key = request.ctrl.eventId))
  by_cases begun :
      .queued (cfg.getWorkerIndex request.info) (.startRpc request.ctrl) ∈ events
  · have form := logged.started begun
    change atKey _ (opsOf cfg _) <+: atKey _ (opsOf cfg _) at inside
    rw [form, List.prefix_cons_iff] at inside
    rcases inside with empty | ⟨tail, shape, first⟩
    · exact .waiting empty
    · obtain ⟨outcomes, short, same⟩ : ∃ outcomes, outcomes <+:
          outcomesFor cfg request.ctrl.eventId events ∧
            tail = outcomes.map (.closing request.ctrl.eventId) := by
        refine ⟨(outcomesFor cfg request.ctrl.eventId events).take tail.length, List.take_prefix .., ?_⟩
        rw [List.map_take]
        exact List.prefix_iff_eq_take.mp first
      exact .started outcomes short (same ▸ shape)
  · have form := (logged.unstarted begun).1
    exact .waiting (List.prefix_nil.mp (form ▸ inside))

/-- The pending entry and the invocations that follow from what was dequeued. -/
inductive Progress (cfg : Config) (events : List Event) (process : Process) (request : Issued) :
    Prop where
  | waiting
      (none_yet : dequeuedFor cfg request.ctrl.eventId (cfg.getWorkerIndex request.info) events = [])
      (silent : invocations request.ctrl (cfg.getWorkerIndex request.info) events = [])
      (absent : (process.workers (cfg.getWorkerIndex request.info)).pending request.ctrl.eventId = none)
      (unopened : .startRpc request.ctrl ∉ processed (cfg.getWorkerIndex request.info) events)
  | started (outcomes : List Outcome)
      (first : outcomes <+: outcomesFor cfg request.ctrl.eventId events)
      (dequeued : dequeuedFor cfg request.ctrl.eventId (cfg.getWorkerIndex request.info) events = outcomes)
      (invoked : invocations request.ctrl (cfg.getWorkerIndex request.info) events = outcomes.take 1)
      (entry : (process.workers (cfg.getWorkerIndex request.info)).pending request.ctrl.eventId =
        if outcomes = [] then some request.ctrl else none)
      (opened : .startRpc request.ctrl ∈ processed (cfg.getWorkerIndex request.info) events)

theorem progress_of_run : Progress cfg events process request := by
  have pending := (replayed_of_run run (cfg.getWorkerIndex request.info)).1
  have invoked := invocations_eq run request.ctrl (cfg.getWorkerIndex request.info)
  have listed : ∀ cmd, opOf cfg cmd = some (.opening request.ctrl.eventId request.ctrl) →
      (cmd ∈ processed (cfg.getWorkerIndex request.info) events ↔
        .opening request.ctrl.eventId request.ctrl ∈ atKey request.ctrl.eventId
          (opsOf cfg (processed (cfg.getWorkerIndex request.info) events))) := by
    intro cmd kind
    obtain ⟨rfl, _⟩ := exec_opening cfg kind
    constructor
    · exact fun member => List.mem_filter.mpr
        ⟨List.mem_filterMap.mpr ⟨_, member, kind⟩, by simp [Op.key]⟩
    · intro member
      obtain ⟨found, inside, same⟩ := List.mem_filterMap.mp (List.mem_filter.mp member).1
      obtain ⟨rfl, _⟩ := exec_opening cfg same
      exact inside
  have opens : opOf cfg (.startRpc request.ctrl) =
      some (.opening request.ctrl.eventId request.ctrl) := rfl
  rcases dequeued_form run few responds made with ⟨ops⟩ | ⟨outcomes, first, ops⟩
  · obtain ⟨silent, absent⟩ := replay_untouched (fun _ => none) request.ctrl.eventId ops
    refine .waiting ?_ ?_ (by rw [pending]; exact absent) ?_
    · rw [dequeuedFor, ← closingsOf_atKey, ops]
      rfl
    · rw [invoked, pendingAfter, silent]
      rfl
    · rw [listed _ opens, ops]
      simp
  · obtain ⟨delivered, entry⟩ := replay_opened (fun _ => none) request.ctrl.eventId request.ctrl
      outcomes ops
    refine .started outcomes first ?_ ?_ (by rw [pending]; exact entry) ?_
    · rw [dequeuedFor, ← closingsOf_atKey, ops]
      exact closingsOf_form _ _ _
    · rw [invoked, pendingAfter, delivered]
      cases outcomes <;> simp
    · rw [listed _ opens, ops]
      simp

theorem pending_elsewhere {worker : Nat} (apart : worker ≠ cfg.getWorkerIndex request.info) :
    (process.workers worker).pending request.ctrl.eventId = none ∧
      invocations request.ctrl worker events = [] := by
  obtain ⟨silent, absent⟩ := replay_untouched (fun _ => none) request.ctrl.eventId
    (dequeued_elsewhere run few responds made apart)
  refine ⟨(replayed_of_run run worker).1 ▸ absent, ?_⟩
  rw [invocations_eq run, pendingAfter, silent]
  rfl

end Run

/-- A step that completes or deletes a controller took the command that closes
its event id, completed it and deleted it right after. -/
theorem completion_move {action : Action} (move : Move cfg process action after emitted)
    {worker : Nat} {ctrl : Controller}
    (touched : (∃ outcome, .completed worker ctrl outcome ∈ emitted) ∨ .deleted worker ctrl ∈ emitted) :
    ∃ cmd eventId outcome, cmd ∈ (process.workers worker).queue ∧
      opOf cfg cmd = some (.closing eventId outcome) ∧
      (process.workers worker).pending eventId = some ctrl ∧
      emitted = [.popped worker cmd, .completed worker ctrl outcome, .deleted worker ctrl] := by
  have worked : ∃ event ∈ emitted, origin event = .worker := by
    rcases touched with ⟨outcome, member⟩ | member
    · exact ⟨_, member, rfl⟩
    · exact ⟨_, member, rfl⟩
  obtain ⟨event, member, source⟩ := worked
  obtain ⟨index, cmd, rest, result, _, unread, same, _, shape⟩ := worker_move move member (.inr source)
  have inside : (∃ outcome, .completed worker ctrl outcome ∈ result.events) ∨
      .deleted worker ctrl ∈ result.events := by simpa [shape] using touched
  rw [← same] at inside
  obtain ⟨rfl, eventId, outcome, kind, held, ran⟩ := exec_completes cfg process.factories index
    process.nextService { process.workers index with queue := rest } cmd worker ctrl inside
  exact ⟨cmd, eventId, outcome, by simp [unread], kind, held, by rw [shape, ← same, ran]⟩

theorem popped_move {action : Action} (move : Move cfg process action after emitted) {worker : Nat}
    {cmd : WorkerCmd} (member : .popped worker cmd ∈ emitted) :
    ∃ rest result, (process.workers worker).queue = cmd :: rest ∧
      { process.workers worker with queue := rest }.exec cfg process.factories worker
        process.nextService cmd = result ∧
      after.workers worker = result.worker ∧ emitted = .popped worker cmd :: result.events := by
  obtain ⟨index, cmd', rest, result, _, unread, same, rfl, shape⟩ := worker_move move member (.inl rfl)
  rw [shape] at member
  rcases List.mem_cons.mp member with equal | later
  · simp only [Event.popped.injEq] at equal
    obtain ⟨rfl, rfl⟩ := equal
    exact ⟨rest, result, unread, same, by simp, shape⟩
  · rw [← same] at later
    have source := exec_origin _ _ _ _ _ _ _ later
    simp [origin] at source

theorem completion_cut {before rest : List Event} {event : Event} {worker : Nat} {ctrl : Controller}
    (run : Run (machine cfg) allowed (before ++ event :: rest) process)
    (touches : (∃ outcome, event = .completed worker ctrl outcome) ∨ event = .deleted worker ctrl) :
    ∃ (events : List Event) (state : Process) (cmd : WorkerCmd) (eventId : UInt64)
      (outcome : Outcome) (later : List Event), Run (machine cfg) allowed events state ∧
      cmd ∈ (state.workers worker).queue ∧ opOf cfg cmd = some (.closing eventId outcome) ∧
      (state.workers worker).pending eventId = some ctrl ∧
      ((event = .completed worker ctrl outcome ∧ before = events ++ [.popped worker cmd] ∧
          rest = .deleted worker ctrl :: later) ∨
        (event = .deleted worker ctrl ∧
          before = events ++ [.popped worker cmd, .completed worker ctrl outcome] ∧ rest = later)) := by
  obtain ⟨events, pre, post, later, state, action, after, earlier, permitted, fired, left, _, right⟩ :=
    run.occurs
  have touched : (∃ outcome, .completed worker ctrl outcome ∈ pre ++ event :: post) ∨
      .deleted worker ctrl ∈ pre ++ event :: post := by
    rcases touches with ⟨outcome, rfl⟩ | rfl
    · exact .inl ⟨outcome, by simp⟩
    · exact .inr (by simp)
  obtain ⟨cmd, eventId, outcome, waiting, kind, held, shape⟩ :=
    completion_move (step_move fired) touched
  refine ⟨events, state, cmd, eventId, outcome, later, earlier, waiting, kind, held, ?_⟩
  subst left right
  match pre, shape with
  | [], shape =>
    simp only [List.nil_append, List.cons.injEq] at shape
    rcases touches with ⟨_, rfl⟩ | rfl <;> simp at shape
  | [first], shape =>
    simp only [List.singleton_append, List.cons.injEq] at shape
    obtain ⟨rfl, rfl, rfl⟩ := shape
    exact .inl ⟨rfl, rfl, rfl⟩
  | [first, second], shape =>
    simp only [List.cons_append, List.nil_append, List.cons.injEq] at shape
    obtain ⟨rfl, rfl, rfl, rfl⟩ := shape
    exact .inr ⟨rfl, rfl, rfl⟩
  | first :: second :: third :: more, shape => simp at shape

theorem popped_cut {before rest : List Event} {worker : Nat} {cmd : WorkerCmd}
    (run : Run (machine cfg) allowed (before ++ .popped worker cmd :: rest) process) :
    ∃ (state : Process) (tail : List WorkerCmd) (result : Result) (later : List Event),
      Run (machine cfg) allowed before state ∧ (state.workers worker).queue = cmd :: tail ∧
      { state.workers worker with queue := tail }.exec cfg state.factories worker
        state.nextService cmd = result ∧ rest = result.events ++ later := by
  obtain ⟨events, pre, post, later, state, action, after, earlier, permitted, fired, left, _, right⟩ :=
    run.occurs
  obtain ⟨tail, result, unread, same, _, shape⟩ := popped_move (step_move fired)
    (List.mem_append_right pre (List.mem_cons_self ..))
  cases pre with
  | nil =>
    simp only [List.nil_append, List.cons.injEq, true_and] at shape
    rw [List.append_nil] at left
    subst left right shape
    exact ⟨state, tail, result, later, earlier, unread, same, rfl⟩
  | cons first more =>
    simp only [List.cons_append, List.cons.injEq] at shape
    have inside : .popped worker cmd ∈ result.events := shape.2 ▸ by simp
    rw [← same] at inside
    have source := exec_origin _ _ _ _ _ _ _ inside
    simp [origin] at source

theorem started_of_processed (run : Run (machine cfg) allowed events process) {worker : Nat}
    {ctrl : Controller} (member : .startRpc ctrl ∈ processed worker events) :
    ∃ info, worker = cfg.getWorkerIndex info ∧ Started cfg events info ctrl := by
  refine (provenance_of_run run).starts ?_
  have queued := (processed_stem run worker).subset member
  obtain ⟨event, inside, shown⟩ := List.mem_filterMap.mp queued
  cases event <;> simp at shown
  obtain ⟨rfl, rfl⟩ := shown
  exact inside

theorem mem_processed {worker : Nat} {cmd : WorkerCmd} :
    cmd ∈ processed worker events ↔ .popped worker cmd ∈ events := by
  constructor
  · intro member
    obtain ⟨event, inside, shown⟩ := List.mem_filterMap.mp member
    cases event <;> simp at shown
    obtain ⟨rfl, rfl⟩ := shown
    exact inside
  · exact fun inside => List.mem_filterMap.mpr ⟨_, inside, by simp⟩

theorem mem_invocations {ctrl : Controller} {worker : Nat} {outcome : Outcome}
    (member : .completed worker ctrl outcome ∈ events) : outcome ∈ invocations ctrl worker events := by
  refine List.mem_map.mpr ⟨(ctrl, outcome), List.mem_filter.mpr ⟨?_, by simp⟩, rfl⟩
  exact List.mem_filterMap.mpr ⟨_, member, by simp⟩

theorem invocations_append (ctrl : Controller) (worker : Nat) (first second : List Event) :
    invocations ctrl worker (first ++ second) =
      invocations ctrl worker first ++ invocations ctrl worker second := by
  simp [invocations]

theorem started_of_pending (run : Run (machine cfg) allowed events process) {worker : Nat}
    {eventId : UInt64} {ctrl : Controller}
    (held : (process.workers worker).pending eventId = some ctrl) :
    eventId = ctrl.eventId ∧ .startRpc ctrl ∈ processed worker events := by
  rw [(replayed_of_run run worker).1] at held
  rcases replay_entry _ held with empty | opened
  · cases empty
  · obtain ⟨cmd, inside, kind⟩ := List.mem_filterMap.mp opened
    obtain ⟨rfl, same⟩ := exec_opening cfg kind
    exact ⟨same, inside⟩

theorem begun_of_completed (run : Run (machine cfg) allowed events process) {worker : Nat}
    {ctrl : Controller} {outcome : Outcome} (member : .completed worker ctrl outcome ∈ events) :
    .startRpc ctrl ∈ processed worker events := by
  obtain ⟨before, rest, split⟩ := List.append_of_mem member
  subst split
  obtain ⟨earlier, state, cmd, eventId, given, later, stem, waiting, closes, held, shape⟩ :=
    completion_cut run (.inl ⟨outcome, rfl⟩)
  have begun := (started_of_pending stem held).2
  rcases shape with ⟨-, front, -⟩ | ⟨-, front, -⟩
  all_goals
    rw [front, List.append_assoc, processed_append]
    exact List.mem_append_left _ begun

theorem issued_of_processed (run : Run (machine cfg) allowed events process) {worker : Nat}
    {ctrl : Controller} (begun : .startRpc ctrl ∈ processed worker events) :
    ∃ request ∈ issued events, request.ctrl = ctrl ∧ worker = cfg.getWorkerIndex request.info := by
  obtain ⟨info, home, started⟩ := started_of_processed run begun
  obtain ⟨thread, made⟩ := started.issued (ledger_of_run run)
  exact ⟨_, made, rfl, home⟩

theorem controller_unique (run : Run (machine cfg) allowed events process)
    (few : process.requests < 2 ^ 64) {first second : Nat} {one two : Controller}
    (begunOne : .startRpc one ∈ processed first events)
    (begunTwo : .startRpc two ∈ processed second events) (same : one.eventId = two.eventId) :
    one = two := by
  obtain ⟨request, made, rfl, -⟩ := issued_of_processed run begunOne
  obtain ⟨other, madeOther, rfl, -⟩ := issued_of_processed run begunTwo
  exact congrArg Issued.ctrl
    ((ledger_of_run run).eventId_injective few made madeOther same)

theorem answer_move {action : Action} (move : Move cfg process action after emitted) {event : Event}
    (member : event ∈ emitted) {answer : Answer} (shown : answerOf cfg event = some answer) :
    handledRequests emitted = [] := by
  refine List.filterMap_eq_nil_iff.mpr (fun other inside => ?_)
  cases other with
  | handled sender cmd =>
    cases cmd with
    | request info ctrl data =>
      obtain ⟨i, oracle, rest, result, _, performed, _, _, _, same, _, rfl⟩ := handled_move move inside
      have shape := sendRequest_emission cfg { process.broker with phase := .dispatch (i + 1) }
        performed oracle info ctrl data same
      rcases shape with ⟨fault, shape⟩ | shape
      all_goals
        rw [shape] at member
        simp only [List.mem_cons, List.not_mem_nil, or_false] at member
        rcases member with rfl | rfl <;> simp [answerOf] at shown
    | _ => rfl
  | _ => rfl

section Claim
variable (run : Run (machine cfg) allowed events process) (few : (issued events).length < 2 ^ 64)
  (responds : RespondsInTurn cfg events) {request : Issued} (made : request ∈ issued events)
include run few responds made

theorem answered_after_start (before : List Event) (worker : Nat) (cmd : WorkerCmd)
    (outcome : Outcome) (rest : List Event) (split : events = before ++ .popped worker cmd :: rest)
    (closes : opOf cfg cmd = some (.closing request.ctrl.eventId outcome)) :
    worker = cfg.getWorkerIndex request.info ∧ .popped worker (.startRpc request.ctrl) ∈ before := by
  have taken : atKey request.ctrl.eventId (opsOf cfg (processed worker events)) =
      atKey request.ctrl.eventId (opsOf cfg (processed worker before)) ++
        .closing request.ctrl.eventId outcome ::
          atKey request.ctrl.eventId (opsOf cfg (processed worker rest)) := by
    rw [split, processed_append, ← List.singleton_append, processed_append, opsOf_append, atKey_append,
      opsOf_append, atKey_append]
    simp [processed, opsOf, closes, atKey, Op.key]
  have home : worker = cfg.getWorkerIndex request.info := by
    by_contra apart
    rw [dequeued_elsewhere run few responds made apart] at taken
    simp at taken
  refine ⟨home, mem_processed.mp ?_⟩
  subst home
  rcases dequeued_form run few responds made with ⟨ops⟩ | ⟨outcomes, _, ops⟩
  · rw [ops] at taken
    simp at taken
  · rw [ops] at taken
    cases earlier : atKey request.ctrl.eventId
        (opsOf cfg (processed (cfg.getWorkerIndex request.info) before)) with
    | nil =>
      rw [earlier] at taken
      simp at taken
    | cons op others =>
      rw [earlier, List.cons_append, List.cons.injEq] at taken
      have head : op ∈ atKey request.ctrl.eventId
          (opsOf cfg (processed (cfg.getWorkerIndex request.info) before)) := by simp [earlier]
      rw [← taken.1] at head
      obtain ⟨found, inside, kind⟩ := List.mem_filterMap.mp (List.mem_filter.mp head).1
      obtain ⟨rfl, _⟩ := exec_opening cfg kind
      exact inside

theorem answered_after_send (before : List Event) (event : Event) (rest : List Event)
    (answer : Answer) (split : events = before ++ event :: rest)
    (shown : answerOf cfg event = some answer) (same : answer.eventId = request.ctrl.eventId) :
    ∃ sender data, .handled sender (.request request.info request.ctrl data) ∈ before := by
  have ledger := ledger_of_run run
  subst split
  obtain ⟨earlierEvents, pre, post, later, state, action, after, earlier, permitted, fired, left, _, right⟩ :=
    run.occurs
  have known := provenance_of_run (earlier.next permitted fired)
  have inside : event ∈ earlierEvents ++ (pre ++ event :: post) := by simp
  have started : Started cfg (earlierEvents ++ (pre ++ event :: post)) request.info request.ctrl := by
    cases event with
    | arrived info header payload =>
      simp only [answerOf, Option.map_eq_some_iff] at shown
      obtain ⟨response, readable, rfl⟩ := shown
      have carried : cfg.responseId header = some request.ctrl.eventId := by
        simp [Config.responseId, readable, ← same]
      obtain ⟨rfl, frames, forwarded⟩ := responds before info header payload rest rfl request made carried
      refine known.forwards request.info frames request.ctrl ?_
      rw [← List.append_assoc, ← left]
      exact List.mem_append_left _ forwarded
    | timerFired eventId workerIndex =>
      simp only [answerOf, Option.some.injEq] at shown
      subst shown
      obtain ⟨info, ctrl, started, _, timer⟩ := known.fired eventId workerIndex inside
      simp only [TimeoutClosure.mk.injEq] at timer
      obtain ⟨rfl, rfl⟩ := timer
      obtain ⟨thread, listed⟩ := started.issued (ledger_of_run (earlier.next permitted fired))
      have whole : before ++ .timerFired ctrl.eventId (cfg.getWorkerIndex info) :: rest =
          (earlierEvents ++ (pre ++ .timerFired ctrl.eventId (cfg.getWorkerIndex info) :: post)) ++
            later := by
        rw [left, right]
        simp
      have equal := ledger.eventId_injective (ledger.length ▸ few)
        (by rw [whole, issued_append]; exact List.mem_append_left _ listed) made same
      subst equal
      exact started
    | _ => simp [answerOf] at shown
  obtain ⟨⟨thread, handled⟩, _⟩ := started
  rw [handledRequests_append, answer_move (step_move fired) (List.mem_append_right pre (List.mem_cons_self ..)) shown,
    List.append_nil] at handled
  obtain ⟨found, member, read⟩ := List.mem_filterMap.mp handled
  cases found with
  | handled sender cmd =>
    cases cmd with
    | request info ctrl data =>
      simp only [Option.some.injEq, Issued.mk.injEq] at read
      obtain ⟨_, rfl, rfl⟩ := read
      exact ⟨sender, data, left ▸ List.mem_append_left _ member⟩
    | _ => simp at read
  | _ => simp at read

theorem completed_once {before rest : List Event} {first second : Nat} {outcome given : Outcome}
    (split : events = before ++ rest) (early : .completed first request.ctrl outcome ∈ before)
    (late : .completed second request.ctrl given ∈ rest) : False := by
  have home : ∀ worker outcome, .completed worker request.ctrl outcome ∈ events →
      worker = cfg.getWorkerIndex request.info := by
    intro worker outcome member
    by_contra apart
    have listed := mem_invocations member
    rw [(pending_elsewhere run few responds made apart).2] at listed
    simp at listed
  have firstHome := home first outcome (split ▸ List.mem_append_left _ early)
  have secondHome := home second given (split ▸ List.mem_append_right _ late)
  have short : (invocations request.ctrl (cfg.getWorkerIndex request.info) events).length ≤ 1 := by
    rcases progress_of_run run few responds made with ⟨_, silent, _, _⟩ | ⟨outcomes, _, _, invoked, _, _⟩
    · simp [silent]
    · rw [invoked, List.length_take]
      exact Nat.min_le_left ..
  rw [split, invocations_append, List.length_append] at short
  have one := List.length_pos_of_mem (mem_invocations (firstHome ▸ early))
  have two := List.length_pos_of_mem (mem_invocations (secondHome ▸ late))
  omega

theorem started_once {before rest : List Event} {first second : Nat} (split : events = before ++ rest)
    (early : .startRpc request.ctrl ∈ processed first before)
    (late : .startRpc request.ctrl ∈ processed second rest) : False := by
  have opens : ∀ worker part, .startRpc request.ctrl ∈ processed worker part →
      .opening request.ctrl.eventId request.ctrl ∈
        atKey request.ctrl.eventId (opsOf cfg (processed worker part)) := fun worker part member =>
    List.mem_filter.mpr ⟨List.mem_filterMap.mpr ⟨_, member, rfl⟩, by simp [Op.key]⟩
  have home : ∀ worker, .startRpc request.ctrl ∈ processed worker events →
      worker = cfg.getWorkerIndex request.info := by
    intro worker member
    by_contra apart
    have listed := opens worker events member
    rw [dequeued_elsewhere run few responds made apart] at listed
    simp at listed
  have firstHome := home first (by rw [split, processed_append]; exact List.mem_append_left _ early)
  have secondHome := home second (by rw [split, processed_append]; exact List.mem_append_right _ late)
  subst firstHome secondHome
  have front := opens _ before early
  have back := opens _ rest late
  have whole : atKey request.ctrl.eventId
      (opsOf cfg (processed (cfg.getWorkerIndex request.info) events)) =
      atKey request.ctrl.eventId (opsOf cfg (processed (cfg.getWorkerIndex request.info) before)) ++
        atKey request.ctrl.eventId (opsOf cfg (processed (cfg.getWorkerIndex request.info) rest)) := by
    rw [split, processed_append, opsOf_append, atKey_append]
  rcases dequeued_form run few responds made with ⟨ops⟩ | ⟨outcomes, _, ops⟩
  · rw [ops] at whole
    rw [(List.append_eq_nil_iff.mp whole.symm).1] at front
    simp at front
  · rw [ops] at whole
    cases earlier : atKey request.ctrl.eventId
        (opsOf cfg (processed (cfg.getWorkerIndex request.info) before)) with
    | nil =>
      rw [earlier] at front
      simp at front
    | cons op others =>
      rw [earlier, List.cons_append, List.cons.injEq] at whole
      have closing : .opening request.ctrl.eventId request.ctrl ∈
          (outcomes.map (.closing request.ctrl.eventId) : List PendingOp) := by
        rw [whole.2]
        exact List.mem_append_right _ back
      simp at closing

theorem deleted_unread (before : List Event) (worker : Nat) (rest : List Event)
    (split : events = before ++ .deleted worker request.ctrl :: rest) :
    ∀ event ∈ rest, reads request.ctrl event = false := by
  have ledger := ledger_of_run run
  subst split
  obtain ⟨earlier, state, cmd, eventId, outcome, later, stem, _, _, held, shape⟩ :=
    completion_cut run (.inr rfl)
  rcases shape with ⟨same, _, _⟩ | ⟨_, front, rfl⟩
  · cases same
  obtain ⟨_, begun⟩ := started_of_pending stem held
  obtain ⟨info, _, started⟩ := started_of_processed stem begun
  obtain ⟨⟨thread, handled⟩, _⟩ := started
  have completed : .completed worker request.ctrl outcome ∈ before := by simp [front]
  have noSecond : ∀ second given, .completed second request.ctrl given ∉ rest := by
    intro second given member
    exact completed_once run few responds made rfl completed (List.mem_cons_of_mem _ member)
  intro event member
  cases event with
  | handled sender cmd =>
    cases cmd with
    | request info' ctrl data =>
      simp only [reads, decide_eq_false_iff_not]
      rintro rfl
      have once := ledger.once
      have again : (⟨sender, info', request.ctrl⟩ : Issued) ∈
          handledRequests (.deleted worker request.ctrl :: rest) :=
        List.mem_filterMap.mpr ⟨_, List.mem_cons_of_mem _ member, rfl⟩
      have earlierRead : (⟨thread, info, request.ctrl⟩ : Issued) ∈ handledRequests before := by
        rw [front, handledRequests_append]
        exact List.mem_append_left _ handled
      rw [handledRequests_append, List.map_append] at once
      exact (List.disjoint_of_nodup_append once)
        (List.mem_map_of_mem (f := fun request => request.ctrl.serial) earlierRead)
        (List.mem_map_of_mem (f := fun request => request.ctrl.serial) again)
    | _ => rfl
  | popped second cmd =>
    cases cmd with
    | startRpc ctrl =>
      simp only [reads, decide_eq_false_iff_not]
      rintro rfl
      have earlyStart : .startRpc request.ctrl ∈ processed worker before := by
        rw [front, processed_append]
        exact List.mem_append_left _ begun
      exact started_once run few responds made rfl earlyStart
        (mem_processed.mpr (List.mem_cons_of_mem _ member))
    | _ => rfl
  | completed second ctrl given =>
    simp only [reads, decide_eq_false_iff_not]
    rintro rfl
    exact noSecond second given member
  | deleted second ctrl =>
    simp only [reads, decide_eq_false_iff_not]
    rintro rfl
    obtain ⟨middle, last, shape⟩ := List.append_of_mem member
    subst shape
    have again : Run (machine cfg) allowed ((before ++ .deleted worker request.ctrl :: middle) ++
        .deleted second request.ctrl :: last) process := by simpa using run
    obtain ⟨_, _, _, _, given, _, _, _, _, _, cut⟩ := completion_cut again (.inr rfl)
    rcases cut with ⟨same, _, _⟩ | ⟨_, tail, _⟩
    · cases same
    · rcases List.eq_nil_or_concat middle with rfl | ⟨more, final, rfl⟩
      · have ends := congrArg List.getLast? tail
        simp at ends
      · have ends := congrArg List.getLast? tail
        simp only [List.concat_eq_append] at ends
        have same : final = .completed second request.ctrl given := by
          simpa [List.getLast?_append, List.getLast?_cons] using ends
        exact noSecond second given (by simp [same])
  | _ => rfl

theorem later_unchanged (deleter : Nat) (done : .deleted deleter request.ctrl ∈ events) (worker : Nat)
    (cmd : WorkerCmd) (outcome : Outcome)
    (closes : opOf cfg cmd = some (.closing request.ctrl.eventId outcome))
    (factories : Nat → Option Factories) (fresh : Nat) :
    (process.workers worker).exec cfg factories worker fresh cmd =
      ⟨process.workers worker, fresh, [], []⟩ := by
  have absent : (process.workers worker).pending request.ctrl.eventId = none := by
    by_cases home : worker = cfg.getWorkerIndex request.info
    · subst home
      rcases progress_of_run run few responds made with ⟨_, _, absent, _⟩ |
        ⟨outcomes, _, _, invoked, entry, _⟩
      · exact absent
      · obtain ⟨before, rest, split⟩ := List.append_of_mem done
        have stem := split ▸ run
        obtain ⟨earlier, _, _, _, given, _, _, _, _, _, shape⟩ := completion_cut stem (.inr rfl)
        rcases shape with ⟨same, _, _⟩ | ⟨_, front, _⟩
        · cases same
        · have completed : .completed deleter request.ctrl given ∈ events := by simp [split, front]
          have listed := mem_invocations completed
          by_cases away : deleter = cfg.getWorkerIndex request.info
          · rw [away, invoked] at listed
            have some_outcome : outcomes ≠ [] := by
              rintro rfl
              simp at listed
            rw [entry, if_neg some_outcome]
          · rw [(pending_elsewhere run few responds made away).2] at listed
            simp at listed
    · exact (pending_elsewhere run few responds made home).1
  rw [exec_closing cfg factories worker fresh (process.workers worker) closes]
  simp [Worker.complete, absent]

theorem answer_completes (before : List Event) (worker : Nat) (cmd : WorkerCmd) (outcome : Outcome)
    (rest : List Event) (split : events = before ++ .popped worker cmd :: rest)
    (closes : opOf cfg cmd = some (.closing request.ctrl.eventId outcome))
    (uncompleted : ∀ completer given, .completed completer request.ctrl given ∉ before) :
    ∃ later, rest = .completed worker request.ctrl outcome :: .deleted worker request.ctrl :: later := by
  obtain ⟨home, begun⟩ := answered_after_start run few responds made before worker cmd outcome rest
    split closes
  have ledger := ledger_of_run run
  subst split
  obtain ⟨state, tail, result, later, stem, _, same, shape⟩ := popped_cut run
  obtain ⟨info, _, started⟩ := started_of_processed stem (mem_processed.mpr begun)
  obtain ⟨thread, listed⟩ := started.issued (ledger_of_run stem)
  have listedAll : (⟨thread, info, request.ctrl⟩ : Issued) ∈
      issued (before ++ .popped worker cmd :: rest) := by
    rw [issued_append]
    exact List.mem_append_left _ listed
  have equal := ledger.serial_injective listedAll made rfl
  have madeBefore : request ∈ issued before := equal ▸ listed
  have fewBefore : (issued before).length < 2 ^ 64 := by
    rw [issued_append, List.length_append] at few
    omega
  subst home
  rcases progress_of_run stem fewBefore responds.earlier madeBefore with ⟨_, _, _, unopened⟩ |
    ⟨outcomes, _, _, invoked, entry, _⟩
  · exact absurd (mem_processed.mpr begun) unopened
  · have none_yet : outcomes = [] := by
      cases outcomes with
      | nil => rfl
      | cons first others =>
        have member : first ∈
            invocations request.ctrl (cfg.getWorkerIndex request.info) before := by simp [invoked]
        obtain ⟨completion, inside, rfl⟩ := List.mem_map.mp member
        obtain ⟨listed, own⟩ := List.mem_filter.mp inside
        obtain ⟨event, found, shown⟩ := List.mem_filterMap.mp listed
        cases event <;> simp at shown
        obtain ⟨rfl, rfl⟩ := shown
        simp only [decide_eq_true_eq] at own
        subst own
        exact absurd found (uncompleted _ _)
    rw [if_pos none_yet] at entry
    rw [exec_closing cfg _ _ _ _ closes] at same
    simp only [Worker.complete, entry] at same
    exact ⟨later, by rw [shape, ← same]; rfl⟩

/-- Every request of a run with fewer than 2^64 requests, whose peers respond in
turn, is completed exactly once by its first answer. -/
theorem completes_exactly_once : CompletesOnce cfg events process request where
  startedFirst := answered_after_start run few responds made
  sentFirst := answered_after_send run few responds made
  inOrder := by
    rcases progress_of_run run few responds made with ⟨none_yet, _, _, _⟩ | ⟨outcomes, first, same, _, _, _⟩
    · rw [none_yet]
      exact List.nil_prefix
    · rw [same]
      exact first
  invoked := by
    rcases progress_of_run run few responds made with ⟨none_yet, silent, _, _⟩ |
      ⟨outcomes, _, same, invoked, _, _⟩
    · rw [none_yet, silent]
      rfl
    · rw [same, invoked]
  invokedElsewhere := fun worker apart => (pending_elsewhere run few responds made apart).2
  deletedAfter := by
    intro before worker outcome rest split
    subst split
    obtain ⟨_, _, _, _, _, later, _, _, _, _, shape⟩ := completion_cut run (.inl ⟨outcome, rfl⟩)
    rcases shape with ⟨_, _, tail⟩ | ⟨same, _, _⟩
    · exact ⟨later, tail⟩
    · cases same
  deletedOnly := by
    intro before worker rest split
    subst split
    obtain ⟨earlier, _, cmd, _, outcome, _, _, _, _, _, shape⟩ := completion_cut run (.inr rfl)
    rcases shape with ⟨same, _, _⟩ | ⟨_, front, _⟩
    · cases same
    · exact ⟨earlier ++ [.popped worker cmd], outcome, by rw [front]; simp⟩
  unread := deleted_unread run few responds made
  unchanged := later_unchanged run few responds made
  neverDropped := answer_completes run few responds made

end Claim

/-- A request times out while its response is under way. -/
def timedOut : List Action :=
  [.thread (.app 0) (.connect [1]), .loopTop, .timers 0, .poll (.ready [true]),
    .dispatch (.frontend (.app 0) ⟨true, 0, 0⟩), .flush, .dispatch .nothing,
    .thread (.app 0) .receive, .thread (.app 0) (.request (.dealer 1) [2] [3] [4] (some 7) 5),
    .thread (.app 0) (.sendRequest true), .loopTop, .timers 0, .poll (.ready [true, false]),
    .dispatch (.frontend (.app 0) ⟨true, 0, 0⟩), .flush, .flush, .dispatch .nothing,
    .dispatch .nothing, .loopTop, .timers 5, .flush, .poll (.ready [false, true]),
    .dispatch .nothing, .dispatch (.message ([] :: replyFrames protobuf 1 [9])), .flush,
    .dispatch .nothing, .worker 0, .worker 0, .worker 0]

theorem completes_exactly_once_timedOut :
    let cfg := linked 0 (fun _ => none) (fun _ _ => true)
    let ran := reached (machine cfg) timedOut
    CompletesOnce cfg ran.2 ran.1 ⟨.app 0, .dealer 1, ⟨0, 1, some 7, 5⟩⟩ ∧
      invocations ⟨0, 1, some 7, 5⟩ 0 ran.2 = [Outcome.timeout] :=
  ⟨completes_exactly_once (run_reached _ _) (by decide +kernel)
    (respondsInTurn_of_check (by decide +kernel)) (by decide +kernel), by decide +kernel⟩

end Rpcz.Completion
