import Rpcz.Completion

/-!
What a timer that fired leads to. The broker queues the timeout behind the start
of the rpc, for the worker of its connection; when that worker has taken it from
its queue, the request is completed.
-/

namespace Rpcz.Deadlines
open Automaton Message EventLog ReactorLoop WorkerThread BrokerThread ProcessModel Moves
  PendingTable History PendingMap EventIds RequestLog Completion

variable {cfg : Config} {process after : Process} {events emitted : List Event}
  {allowed : Process → Action → Prop}

/-- Of the effects of a handler, those that time a request out. -/
def timeouts (outbox : List Output) : List (Nat × UInt64) :=
  outbox.filterMap fun
    | .push worker (.handleTimeout eventId) => some (worker, eventId)
    | _ => none

theorem mem_timeouts {outbox : List Output} {worker : Nat} {eventId : UInt64} :
    (worker, eventId) ∈ timeouts outbox ↔ .push worker (.handleTimeout eventId) ∈ outbox := by
  constructor
  · intro member
    obtain ⟨output, inside, shown⟩ := List.mem_filterMap.mp member
    cases output with
    | push index cmd => cases cmd <;> simp_all
    | send | reply => simp at shown
  · exact fun inside => List.mem_filterMap.mpr ⟨_, inside, rfl⟩

theorem plain_timeouts {broker : Broker} {read : List Event} {result : Broker × List Event}
    (plain : Plain cfg broker read result)
    (other : ∀ eventId index, .timerFired eventId index ∉ read) : timeouts result.1.outbox = [] := by
  refine List.eq_nil_iff_forall_not_mem.mpr (fun ⟨worker, eventId⟩ member => ?_)
  obtain ⟨index, -, fired⟩ := plain.pushes worker _ (mem_timeouts.mp member)
  rcases List.mem_append.mp fired with before | reported
  · exact other eventId index before
  · exact (plain.reports _ reported).2 eventId index rfl

inductive TimerMove (cfg : Config) (process : Process) (action : Action) (after : Process)
    (emitted : List Event) : Prop where
  | fires (now : UInt64) (live : process.broker.phase ≠ .faulted)
      (performed : process.broker.outbox = [])
      (same : after = { process with broker := (process.broker.runTimers cfg now).1 })
      (shape : emitted = (process.broker.runTimers cfg now).2 ++
        queuedEvents (process.broker.runTimers cfg now).1.outbox)
  | silent (fired : ∀ eventId index, .timerFired eventId index ∉ emitted)
      (queued : ∀ worker eventId, .queued worker (.handleTimeout eventId) ∉ emitted)
      (outbox : timeouts after.broker.outbox = [] ∨ after.broker = process.broker ∨
        action = .flush)

theorem plain_silent {broker : Broker} {action : Action} {read : List Event}
    {result : Broker × List Event} (plain : Plain cfg broker read result)
    (other : ∀ eventId index, .timerFired eventId index ∉ read)
    (reported : ∀ event ∈ result.2, origin event = .broker) (same : after.broker = result.1)
    (shape : emitted = read ++ (result.2 ++ queuedEvents result.1.outbox))
    (first : ∀ event ∈ read, origin event ≠ .queued) :
    TimerMove cfg process action after emitted := by
  have none_queued := plain_timeouts plain other
  refine .silent (fun eventId index member => ?_) (fun worker eventId member => ?_)
    (.inl (same ▸ none_queued))
  · rw [shape] at member
    rcases List.mem_append.mp member with before | later
    · exact other eventId index before
    · rcases List.mem_append.mp later with inside | queued
      · exact (plain.reports _ inside).2 eventId index rfl
      · have source := queuedEvents_origin _ queued
        cases source
  · rw [shape] at member
    rcases List.mem_append.mp member with before | later
    · exact first _ before rfl
    · rcases List.mem_append.mp later with inside | queued
      · have source := reported _ inside
        cases source
      · have listed := mem_timeouts.mpr (mem_queuedEvents.mp queued)
        rw [none_queued] at listed
        cases listed

theorem quiet_silent {action : Action} (source : Origin) (apart : source ≠ .broker)
    (unqueued : source ≠ .queued) (silent : ∀ event ∈ emitted, origin event = source)
    (outbox : timeouts after.broker.outbox = [] ∨ after.broker = process.broker ∨
      action = .flush) : TimerMove cfg process action after emitted :=
  .silent (fun _ _ member => apart (silent _ member).symm)
    (fun _ _ member => unqueued (silent _ member).symm) outbox

theorem timer_move {action : Action} (move : Move cfg process action after emitted) :
    TimerMove cfg process action after emitted := by
  cases move with
  | thread thread action after emitted running move =>
    obtain ⟨broker, -, -, -, silent⟩ := threadMove_frame move
    exact quiet_silent .thread (by decide) (by decide) silent (.inr (.inl broker))
  | loopTop phase performed =>
    exact plain_silent (loopTop_plain cfg _ performed) (by simp) (loopTop_origin _) rfl rfl
      (by simp)
  | timers now phase performed => exact .fires now (by simp [phase]) performed rfl rfl
  | poll outcome phase performed =>
    exact plain_silent (afterPoll_plain cfg _ performed outcome) (by simp) (afterPoll_origin _ _)
      rfl rfl (by simp)
  | finished input i phase performed | quiet input i phase performed =>
    refine .silent (by simp) (by simp) (.inl ?_)
    change timeouts process.broker.outbox = []
    rw [performed]
    rfl
  | outOfRange input i phase performed =>
    refine .silent (by simp) (by simp) (.inl ?_)
    change timeouts process.broker.outbox = []
    rw [performed]
    rfl
  | command i sender oracle cmd rest phase performed slot unread result same =>
    cases kind : isRequest cmd with
    | false =>
      have plain := handleCommand_plain cfg { process.broker with phase := .dispatch (i + 1) }
        performed oracle sender kind
      rw [same] at plain
      exact plain_silent plain (by simp) (same ▸ handleCommand_origin _ _ _ _ _) rfl rfl
        (by simp [origin])
    | true =>
      cases cmd with
      | request info ctrl data =>
        have shape := (sendRequest_cases cfg { process.broker with phase := .dispatch (i + 1) }
          performed oracle info ctrl data).2
        change { process.broker with phase := .dispatch (i + 1) }.sendRequest cfg oracle info ctrl
          data = result at same
        rw [same] at shape
        rcases shape with ⟨fault, -, outbox, reports⟩ | ⟨socket, outbox, reports⟩
        · exact .silent (by simp [outbox, reports, queuedEvents])
            (by simp [outbox, reports, queuedEvents]) (.inl (by simp [outbox, timeouts]))
        · exact .silent (by simp [outbox, reports, queuedEvents])
            (by simp [outbox, reports, queuedEvents]) (.inl (by simp [outbox, timeouts]))
      | _ => simp [isRequest] at kind
  | message i callback frames phase performed slot network nonempty result same =>
    have plain := receive_plain cfg { process.broker with phase := .dispatch (i + 1) } performed
      callback frames
    rw [same] at plain
    exact plain_silent plain (by simp) (same ▸ receive_origin _ _ _ _) rfl rfl (by simp)
  | flush output rest live unperformed =>
    refine .silent (fun eventId index member => ?_) (fun worker eventId member => ?_)
      (.inr (.inr rfl))
    · cases output with
      | push | reply => simp [Process.perform] at member
      | send info socket frames cause =>
        simp only [Process.perform] at member
        split at member <;> simp [Broker.fault] at member
    · have source := perform_origin _ _ _ member
      cases source
  | worker index cmd rest legal running idle unread result same =>
    have silent : ∀ event ∈ result.events, origin event = .worker :=
      same ▸ exec_origin _ _ _ _ _ _
    refine .silent (fun eventId index member => ?_) (fun worker eventId member => ?_)
      (.inr (.inl rfl))
    · rcases List.mem_cons.mp member with first | later
      · cases first
      · cases silent _ later
    · rcases List.mem_cons.mp member with first | later
      · cases first
      · cases silent _ later
  | release | joinWorkers => exact .silent (by simp) (by simp) (.inr (.inl rfl))
  | joinBroker => exact .silent (by simp) (by simp) (.inr (.inl rfl))

theorem runTimers_timeouts (broker : Broker) (performed : broker.outbox = []) (now : UInt64) :
    (∀ output ∈ (broker.runTimers cfg now).1.outbox,
      ∃ worker eventId, output = .push worker (.handleTimeout eventId)) ∧
      ∀ eventId index, .timerFired eventId index ∈ (broker.runTimers cfg now).2 →
        .push (index % cfg.workers) (.handleTimeout eventId) ∈ (broker.runTimers cfg now).1.outbox := by
  simp only [Broker.runTimers, Broker.emit, performed, List.nil_append]
  constructor
  · intro output member
    obtain ⟨closure, -, rfl⟩ := List.mem_map.mp member
    exact ⟨_, _, rfl⟩
  · intro eventId index member
    obtain ⟨closure, inside, same⟩ := List.mem_map.mp member
    cases same
    exact List.mem_map.mpr ⟨closure, inside, rfl⟩

/-- While a timeout waits to be pushed the broker is in front of its poll, and
all it has still to perform are timeouts. -/
def Expiring (process : Process) : Prop :=
  timeouts process.broker.outbox ≠ [] → process.broker.phase = .poll ∧
    ∀ output ∈ process.broker.outbox, ∃ worker eventId, output = .push worker (.handleTimeout eventId)

theorem timeouts_tail {output : Output} {rest : List Output} (some_left : timeouts rest ≠ []) :
    timeouts (output :: rest) ≠ [] := by
  intro nothing
  rw [timeouts, List.filterMap_cons] at nothing
  split at nothing
  · exact some_left nothing
  · cases nothing

section Run
variable (run : Run (machine cfg) allowed events process)
include run

theorem expiring_of_run : Expiring process := by
  refine Steps.invariant (fun _ process => Expiring process) (fun waiting => absurd rfl waiting)
    ?_ run
  intro events process action emitted after _ expiring _ fired waiting
  cases timer_move (step_move fired) with
  | fires now live performed same shape =>
    subst same
    exact ⟨rfl, (runTimers_timeouts _ performed now).1⟩
  | silent quiet unqueued outbox =>
    rcases outbox with nothing | same | rfl
    · exact absurd nothing waiting
    · rw [same] at waiting ⊢
      exact expiring waiting
    · cases step_move fired with
      | flush output rest live unperformed =>
        rw [perform_outbox] at waiting
        have before : timeouts process.broker.outbox ≠ [] := by
          rw [unperformed]
          exact timeouts_tail waiting
        obtain ⟨phase, pushes⟩ := expiring before
        rw [unperformed] at pushes
        obtain ⟨worker, eventId, rfl⟩ := pushes output (List.mem_cons_self ..)
        exact ⟨phase, fun output member => pushes output (List.mem_cons_of_mem _ member)⟩

theorem fired_queued {eventId : UInt64} {index : Nat} (member : .timerFired eventId index ∈ events) :
    .handleTimeout eventId ∈ queuedFor (index % cfg.workers) events := by
  refine Steps.invariant (fun events _ => .timerFired eventId index ∈ events →
    .handleTimeout eventId ∈ queuedFor (index % cfg.workers) events) (by simp) ?_ run member
  intro events process action emitted after _ known _ fired member
  rw [queuedFor_append]
  rcases List.mem_append.mp member with before | new
  · exact List.mem_append_left _ (known before)
  · refine List.mem_append_right _ ?_
    cases timer_move (step_move fired) with
    | silent quiet => exact absurd new (quiet _ _)
    | fires now live performed same shape =>
      rw [shape] at new ⊢
      rw [queuedFor_append, queuedFor_queuedEvents]
      refine List.mem_append_right _ ?_
      rcases List.mem_append.mp new with reported | queued
      · exact List.mem_filterMap.mpr
          ⟨_, (runTimers_timeouts _ performed now).2 eventId index reported, by simp⟩
      · cases queuedEvents_origin _ queued

theorem runTimers_started {now : UInt64} (live : process.broker.phase ≠ .faulted)
    (performed : process.broker.outbox = []) {worker : Nat} {eventId : UInt64}
    (pushed : .push worker (.handleTimeout eventId) ∈
      (process.broker.runTimers cfg now).1.outbox) :
    ∃ info ctrl, Started cfg events info ctrl ∧ ctrl.eventId = eventId ∧
      worker = cfg.getWorkerIndex info := by
  simp only [Broker.runTimers, Broker.emit, performed, List.nil_append] at pushed
  obtain ⟨closure, due, same⟩ := List.mem_map.mp pushed
  cases same
  have registered : closure ∈ timersIn process.broker.reactor.closureRunMap := by
    rw [← due_append_notDue now]
    exact List.mem_append_left _ due
  obtain ⟨info, ctrl, started, -, rfl⟩ := (provenance_of_run run).timers live closure registered
  exact ⟨info, ctrl, started, rfl, Nat.mod_eq_of_lt (cfg.getWorkerIndex_lt info)⟩

theorem timeout_behind_start {worker : Nat} {eventId : UInt64} {before rest : List WorkerCmd}
    (split : queuedFor worker events = before ++ .handleTimeout eventId :: rest) :
    ∃ info ctrl, Started cfg events info ctrl ∧ ctrl.eventId = eventId ∧
      worker = cfg.getWorkerIndex info ∧ .startRpc ctrl ∈ before := by
  refine Steps.invariant (fun events _ => ∀ before rest,
    queuedFor worker events = before ++ .handleTimeout eventId :: rest →
      ∃ info ctrl, Started cfg events info ctrl ∧ ctrl.eventId = eventId ∧
        worker = cfg.getWorkerIndex info ∧ .startRpc ctrl ∈ before) (by simp [queuedFor]) ?_ run
    before rest split
  intro events process action emitted after earlier known _ fired before rest split
  rw [queuedFor_append] at split
  have older : ∀ more tail, queuedFor worker events = more ++ .handleTimeout eventId :: tail →
      more = before → ∃ info ctrl, Started cfg (events ++ emitted) info ctrl ∧
        ctrl.eventId = eventId ∧ worker = cfg.getWorkerIndex info ∧ .startRpc ctrl ∈ before := by
    rintro more tail first rfl
    obtain ⟨info, ctrl, started, rest⟩ := known more tail first
    exact ⟨info, ctrl, started.later _, rest⟩
  have newer : .handleTimeout eventId ∈ queuedFor worker emitted →
      queuedFor worker events <+: before → ∃ info ctrl, Started cfg (events ++ emitted) info ctrl ∧
        ctrl.eventId = eventId ∧ worker = cfg.getWorkerIndex info ∧ .startRpc ctrl ∈ before := by
    intro new first
    obtain ⟨event, member, shown⟩ := List.mem_filterMap.mp new
    cases event <;> simp at shown
    obtain ⟨rfl, rfl⟩ := shown
    cases timer_move (step_move fired) with
    | silent quiet unqueued => exact absurd member (unqueued _ _)
    | fires now live performed same shape =>
      rw [shape] at member
      rcases List.mem_append.mp member with reported | queued
      · cases runTimers_origin _ _ _ _ reported
      · obtain ⟨info, ctrl, started, own, home⟩ :=
          runTimers_started earlier live performed (mem_queuedEvents.mp queued)
        refine ⟨info, ctrl, started.later _, own, home, first.subset ?_⟩
        exact List.mem_filterMap.mpr ⟨_, started.2, by simp [home]⟩
  rcases List.append_eq_append_iff.mp split with ⟨gap, left, right⟩ | ⟨gap, left, right⟩
  · exact newer (by simp [right]) ⟨gap, left.symm⟩
  · cases gap with
    | nil =>
      rw [List.append_nil] at left
      refine newer ?_ ⟨[], by rw [List.append_nil, left]⟩
      rw [← List.nil_append (queuedFor worker emitted), ← right]
      exact List.mem_cons_self ..
    | cons head tail =>
      obtain ⟨same, -⟩ := List.cons.inj right
      subst same
      exact older before tail left rfl

/-- A worker that took the timeout of a request from its queue has completed the
request, then or before. -/
theorem timeout_completes (few : process.requests < 2 ^ 64) {request : Issued}
    (made : request ∈ issued events) {worker : Nat}
    (taken : .handleTimeout request.ctrl.eventId ∈ processed worker events) :
    ∃ outcome, .completed worker request.ctrl outcome ∈ events := by
  obtain ⟨before, rest, split⟩ := List.append_of_mem taken
  have whole : queuedFor worker events = before ++ .handleTimeout request.ctrl.eventId ::
      (rest ++ ((process.workers worker).queue ++ outgoing worker process.broker.outbox)) := by
    rw [delivered_of_run run worker, split]
    simp
  have earlier : ∀ {cmd}, cmd ∈ before → cmd ∈ processed worker events := by
    intro cmd member
    rw [split]
    exact List.mem_append_left _ member
  obtain ⟨info, ctrl, -, own, -, begun⟩ := timeout_behind_start run whole
  obtain ⟨found, listed, rfl, -⟩ := issued_of_processed run (earlier begun)
  have same : found = request := (ledger_of_run run).eventId_injective few listed made own
  subst same
  have opened : .opening found.ctrl.eventId found.ctrl ∈ opsOf cfg before :=
    List.mem_filterMap.mpr ⟨_, begun, rfl⟩
  have only : ∀ other, .opening found.ctrl.eventId other ∈ opsOf cfg before →
      other = found.ctrl := by
    intro other member
    obtain ⟨cmd, inside, kind⟩ := List.mem_filterMap.mp member
    obtain ⟨rfl, key⟩ := exec_opening cfg kind
    exact controller_unique run few (earlier inside) (earlier begun) key.symm
  have delivered : ∃ delivery ∈ (replay (fun _ => none) (opsOf cfg before ++
      .closing found.ctrl.eventId Outcome.timeout :: opsOf cfg rest)).2,
      delivery.entry = found.ctrl := replay_closed (fun _ => none) opened only
  obtain ⟨delivery, member, entry⟩ := delivered
  have listed : (found.ctrl, delivery.value) ∈ completions worker events := by
    rw [(replayed_of_run run worker).2, split, pendingAfter, opsOf_append]
    exact List.mem_map.mpr ⟨delivery, member, by rw [entry]⟩
  obtain ⟨event, inside, shown⟩ := List.mem_filterMap.mp listed
  cases event <;> simp at shown
  obtain ⟨rfl, rfl, rfl⟩ := shown
  exact ⟨_, inside⟩

end Run

end Rpcz.Deadlines
