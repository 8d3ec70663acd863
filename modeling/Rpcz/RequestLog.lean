import Rpcz.EventIds

/-!
What the broker queues for the workers about one request. Before the broker has
read the request nothing carries its event id; `send_request` queues its start;
from then on its responses and timeouts are queued behind the start, in the
order in which the broker read them, for the worker of its connection.
-/

namespace Rpcz.RequestLog
open Automaton Message EventLog ReactorLoop RequestHandlers WorkerThread BrokerThread ProcessModel
  Moves PendingTable History PendingMap EventIds

/-- A response the broker received or a timer it ran, with the worker it is for. -/
structure Answer where
  eventId : UInt64
  worker : Nat
  outcome : Outcome
deriving DecidableEq

def answerOf (cfg : Config) : Event → Option Answer
  | .arrived info header payload =>
    (cfg.responseHeader header).map (fun response =>
      ⟨response.getEventId, cfg.getWorkerIndex info, response.outcome payload⟩)
  | .timerFired eventId workerIndex => some ⟨eventId, workerIndex % cfg.workers, Outcome.timeout⟩
  | _ => none

def answers (cfg : Config) (events : List Event) : List Answer :=
  events.filterMap (answerOf cfg)

def Answer.op (answer : Answer) : PendingOp := .closing answer.eventId answer.outcome

def outcomesFor (cfg : Config) (eventId : UInt64) (events : List Event) : List Outcome :=
  ((answers cfg events).filter (fun answer => answer.eventId = eventId)).map Answer.outcome

@[simp] theorem answers_append (cfg : Config) (first second : List Event) :
    answers cfg (first ++ second) = answers cfg first ++ answers cfg second :=
  List.filterMap_append ..

@[simp] theorem outcomesFor_append (cfg : Config) (eventId : UInt64) (first second : List Event) :
    outcomesFor cfg eventId (first ++ second) =
      outcomesFor cfg eventId first ++ outcomesFor cfg eventId second := by
  simp [outcomesFor]

theorem answers_other {cfg : Config} {events : List Event}
    (elsewhere : ∀ event ∈ events, origin event ≠ .broker) : answers cfg events = [] := by
  refine filterMap_other .broker (fun event other => ?_) elsewhere
  cases event <;> simp_all [origin, answerOf]

/-- The broker read the request and queued its start for the worker of its connection. -/
def Started (cfg : Config) (events : List Event) (info : ConnectionInfo) (ctrl : Controller) : Prop :=
  (∃ thread, ⟨thread, info, ctrl⟩ ∈ handledRequests events) ∧
    .queued (cfg.getWorkerIndex info) (.startRpc ctrl) ∈ events

theorem Started.mono {cfg : Config} {events more : List Event} {info : ConnectionInfo}
    {ctrl : Controller} (started : Started cfg events info ctrl) (kept : events ⊆ more) :
    Started cfg more info ctrl := by
  obtain ⟨⟨thread, handled⟩, queued⟩ := started
  obtain ⟨event, member, shown⟩ := List.mem_filterMap.mp handled
  exact ⟨⟨thread, List.mem_filterMap.mpr ⟨event, kept member, shown⟩⟩, kept queued⟩

theorem Started.later {cfg : Config} {events : List Event} {info : ConnectionInfo} {ctrl : Controller}
    (started : Started cfg events info ctrl) (more : List Event) :
    Started cfg (events ++ more) info ctrl :=
  started.mono (List.subset_append_left ..)

theorem Started.issued {cfg : Config} {events : List Event} {process : Process}
    (ledger : Ledger events process) {info : ConnectionInfo} {ctrl : Controller}
    (started : Started cfg events info ctrl) : ∃ thread, ⟨thread, info, ctrl⟩ ∈ issued events := by
  obtain ⟨⟨thread, handled⟩, _⟩ := started
  exact ⟨thread, ledger.handled_issued handled⟩

/-- Why the broker queued a command for a worker. -/
def Caused (cfg : Config) (events : List Event) (worker : Nat) : WorkerCmd → Prop
  | .startRpc ctrl => ∃ info, worker = cfg.getWorkerIndex info ∧ Started cfg events info ctrl
  | .handleData info header payload =>
    worker = cfg.getWorkerIndex info ∧ .arrived info header payload ∈ events
  | .handleTimeout eventId =>
    ∃ index, worker = index % cfg.workers ∧ .timerFired eventId index ∈ events
  | .runClosure closure => ∃ sender, .handled sender (.runClosure closure) ∈ events
  | .registerSvc info name svc =>
    worker = cfg.getWorkerIndex info ∧ ∃ sender, .handled sender (.registerSvc info name svc) ∈ events
  | .quitWorker => True

theorem Caused.mono {cfg : Config} {events more : List Event} {worker : Nat} {cmd : WorkerCmd}
    (caused : Caused cfg events worker cmd) (kept : events ⊆ more) : Caused cfg more worker cmd := by
  cases cmd with
  | startRpc ctrl =>
    obtain ⟨info, home, started⟩ := caused
    exact ⟨info, home, started.mono kept⟩
  | handleData info header payload => exact ⟨caused.1, kept caused.2⟩
  | handleTimeout eventId =>
    obtain ⟨index, home, fired⟩ := caused
    exact ⟨index, home, kept fired⟩
  | runClosure closure =>
    obtain ⟨sender, handled⟩ := caused
    exact ⟨sender, kept handled⟩
  | registerSvc info name svc =>
    obtain ⟨home, sender, handled⟩ := caused
    exact ⟨home, sender, kept handled⟩
  | quitWorker => trivial

def Timed (cfg : Config) (events : List Event) (timer : TimeoutClosure) : Prop :=
  ∃ info ctrl, Started cfg events info ctrl ∧ ctrl.timeoutMs ≠ -1 ∧
    timer = ⟨ctrl.eventId, cfg.getWorkerIndex info⟩

theorem Timed.later {cfg : Config} {events : List Event} {timer : TimeoutClosure}
    (timed : Timed cfg events timer) (more : List Event) : Timed cfg (events ++ more) timer := by
  obtain ⟨info, ctrl, started, finite, same⟩ := timed
  exact ⟨info, ctrl, started.later more, finite, same⟩

/-! ## What one handler of the broker queues -/

/-- The operations queued for every worker are those of the answers reported. -/
def Recorded (cfg : Config) (result : Broker × List Event) : Prop :=
  ∀ worker, opsOf cfg (outgoing worker result.1.outbox) =
    ((answers cfg result.2).filter (fun answer => answer.worker = worker)).map Answer.op

section Handlers
variable (cfg : Config) (broker : Broker)

theorem push_recorded (worker : Nat) (cmd : WorkerCmd) (event : Event)
    (matching : opOf cfg cmd = (answerOf cfg event).map Answer.op)
    (aimed : ∀ answer, answerOf cfg event = some answer → answer.worker = worker) (index : Nat) :
    opsOf cfg (outgoing index [.push worker cmd]) =
      ((answers cfg [event]).filter (fun answer => answer.worker = index)).map Answer.op := by
  cases found : answerOf cfg event with
  | none =>
    have neutral : opOf cfg cmd = none := by rw [matching, found]; rfl
    by_cases here : worker = index <;> simp [outgoing, opsOf, answers, found, neutral, here]
  | some answer =>
    have op : opOf cfg cmd = some answer.op := by rw [matching, found]; rfl
    have target := aimed answer found
    by_cases here : worker = index
    · simp [outgoing, opsOf, answers, found, op, here, target]
    · simp [outgoing, opsOf, answers, found, here, target]

theorem push_neutral {worker : Nat} {cmd : WorkerCmd} (neutral : opOf cfg cmd = none)
    (index : Nat) : opsOf cfg (outgoing index [.push worker cmd]) = [] := by
  by_cases here : worker = index <;> simp [outgoing, opsOf, neutral, here]

theorem handleSocket_recorded (performed : broker.outbox = []) (info : ConnectionInfo)
    (frames : List Frame) : Recorded cfg (broker.handleSocket cfg info frames) := by
  unfold Broker.handleSocket
  split
  · next header rest =>
    intro worker
    have pushed := push_recorded cfg (cfg.getWorkerIndex info)
      (.handleData info header (rest.headD [])) (.arrived info header (rest.headD []))
      (by simp [opOf, answerOf, Function.comp_def, Answer.op])
      (by
        intro answer found
        simp only [answerOf, Option.map_eq_some_iff] at found
        obtain ⟨response, _, rfl⟩ := found
        rfl) worker
    simpa [Broker.emit, performed] using pushed
  · intro worker
    simp [performed, outgoing, answers]

theorem receive_recorded (performed : broker.outbox = []) (callback : SocketCallback)
    (frames : List Frame) : Recorded cfg (broker.receive cfg callback frames) := by
  have faulted : ∀ fault, Recorded cfg (broker.fault fault) := by
    intro fault worker
    simp [Broker.fault, performed, outgoing, answers, answerOf]
  cases callback with
  | frontend => exact faulted _
  | dealer index =>
    simp only [Broker.receive, Broker.handleDealerSocket]
    split
    · exact faulted _
    · split
      · exact faulted _
      · exact handleSocket_recorded cfg broker performed _ _
  | router index =>
    simp only [Broker.receive, Broker.handleRouterSocket]
    split
    · exact faulted _
    · split
      · exact faulted _
      · split
        · exact handleSocket_recorded cfg broker performed _ _
        · intro worker
          simp [performed, outgoing, answers]

theorem runTimers_recorded (performed : broker.outbox = []) (now : UInt64) :
    Recorded cfg (broker.runTimers cfg now) := by
  intro worker
  simp only [Broker.runTimers, Broker.emit, performed, List.nil_append]
  induction (broker.reactor.processClosureRunMap now).2 with
  | nil => rfl
  | cons closure rest ih =>
    have pushed := push_recorded cfg (closure.workerIndex % cfg.workers)
      (.handleTimeout closure.eventId) (.timerFired closure.eventId closure.workerIndex) rfl
      (by
        intro answer found
        simp only [answerOf, Option.some.injEq] at found
        rw [← found]) worker
    rw [List.map_cons, List.map_cons, ← List.singleton_append (l := List.map _ rest),
      ← List.singleton_append (l := List.map _ rest), outgoing_append, opsOf_append, answers_append,
      List.filter_append, List.map_append, pushed, ih]

theorem loopTop_recorded (performed : broker.outbox = []) : Recorded cfg broker.loopTop := by
  intro worker
  have unanswered : answers cfg broker.loopTop.2 = [] := by
    unfold Broker.loopTop Broker.fault
    split
    · rfl
    · split
      · split
        · rfl
        · exact List.filterMap_eq_nil_iff.mpr (fun event member => by
            obtain ⟨pair, _, rfl⟩ := List.mem_map.mp member
            rfl)
      · rfl
  have unpushed : outgoing worker broker.loopTop.1.outbox = [] := by
    unfold Broker.loopTop Broker.fault
    split
    · simp [performed, outgoing]
    · split
      · split
        · simp [performed, outgoing]
        · simp only [Broker.emit, performed, List.nil_append]
          exact List.filterMap_eq_nil_iff.mpr (fun output member => by
            obtain ⟨sender, _, rfl⟩ := List.mem_map.mp member
            rfl)
      · simp [performed, outgoing]
  rw [unanswered, unpushed]
  rfl

theorem afterPoll_recorded (performed : broker.outbox = []) (outcome : PollOutcome) :
    Recorded cfg (broker.afterPoll outcome) := by
  intro worker
  cases outcome <;>
    simp [Broker.afterPoll, Broker.fault, performed, outgoing, answers, answerOf]

def isRequest : Command → Bool
  | .request .. => true
  | _ => false

theorem handleCommand_recorded (performed : broker.outbox = []) (oracle : Oracle) (sender : Thread)
    {cmd : Command} (other : isRequest cmd = false) :
    Recorded cfg (broker.handleCommand cfg oracle sender cmd) := by
  intro worker
  cases cmd with
  | request => simp [isRequest] at other
  | quit => simp [Broker.handleCommand, performed, outgoing, answers]
  | connect endpoint =>
    simp only [Broker.handleCommand, Broker.handleConnectCommand, Broker.fault, Broker.emit]
    split <;> simp [performed, outgoing, answers, answerOf]
  | bind endpoint =>
    simp only [Broker.handleCommand, Broker.handleBindCommand, Broker.fault, Broker.emit]
    split <;> simp [performed, outgoing, answers, answerOf]
  | unbind endpoint =>
    simp only [Broker.handleCommand, Broker.handleUnbindCommand]
    split <;> simp [performed, outgoing, answers]
  | reply info data =>
    simp only [Broker.handleCommand, Broker.forwardTo, Broker.fault, Broker.emit]
    split <;> simp [performed, outgoing, answers, answerOf]
  | runClosure closure =>
    simp only [Broker.handleCommand, Broker.emit, performed, List.nil_append]
    exact push_neutral cfg rfl worker
  | registerSvc info name svc =>
    simp only [Broker.handleCommand, Broker.emit, performed, List.nil_append]
    exact push_neutral cfg rfl worker

/-- `send_request` queues the start of the rpc behind the message it puts on the
socket, and registers the timer first. -/
theorem sendRequest_cases (performed : broker.outbox = []) (oracle : Oracle) (info : ConnectionInfo)
    (ctrl : Controller) (data : List Frame) :
    let result := broker.sendRequest cfg oracle info ctrl data
    (∀ timer ∈ timersIn result.1.reactor.closureRunMap,
      timer ∈ timersIn broker.reactor.closureRunMap ∨
        ctrl.timeoutMs ≠ -1 ∧ timer = ⟨ctrl.eventId, cfg.getWorkerIndex info⟩) ∧
    ((∃ fault, result.1.phase = .faulted ∧ result.1.outbox = [] ∧ result.2 = [.faulted fault]) ∨
      ∃ socket, result.1.outbox = [.send info socket (Broker.wireFrames info data) (some ctrl),
        .push (cfg.getWorkerIndex info) (.startRpc ctrl)] ∧ result.2 = []) := by
  intro result
  have timers : ∀ timer ∈ timersIn (if ctrl.timeoutMs = -1 then broker else { broker with
      reactor := broker.reactor.runClosureAt (oracle.now + ctrl.timeoutMs.toUInt64)
        ⟨ctrl.eventId, cfg.getWorkerIndex info⟩ }).reactor.closureRunMap,
      timer ∈ timersIn broker.reactor.closureRunMap ∨
        ctrl.timeoutMs ≠ -1 ∧ timer = ⟨ctrl.eventId, cfg.getWorkerIndex info⟩ := by
    intro timer member
    split at member
    · exact .inl member
    · next finite =>
      rcases mem_insertClosure.mp member with new | old
      · exact .inr ⟨finite, new⟩
      · exact .inl old
  have empty : (if ctrl.timeoutMs = -1 then broker else { broker with
      reactor := broker.reactor.runClosureAt (oracle.now + ctrl.timeoutMs.toUInt64)
        ⟨ctrl.eventId, cfg.getWorkerIndex info⟩ }).outbox = [] := by
    split <;> exact performed
  simp only [result, Broker.sendRequest]
  split
  · exact ⟨timers, .inl ⟨_, rfl, empty, rfl⟩⟩
  · next socket _ => exact ⟨timers, .inr ⟨socket, by simp [Broker.emit, empty], rfl⟩⟩

/-- A handler that registers and runs no timer and starts no rpc; `read` is the
command it handles, if any. -/
structure Plain (read : List Event) (result : Broker × List Event) : Prop where
  closures : result.1.reactor.closureRunMap = broker.reactor.closureRunMap
  sends : ∀ info socket frames ctrl, .send info socket frames (some ctrl) ∉ result.1.outbox
  starts : ∀ worker ctrl, .push worker (.startRpc ctrl) ∉ result.1.outbox
  pushes : ∀ worker cmd, .push worker cmd ∈ result.1.outbox → Caused cfg (read ++ result.2) worker cmd
  reports : ∀ event ∈ result.2, (∀ info frames cause, event ≠ .forwarded info frames cause) ∧
    ∀ eventId workerIndex, event ≠ .timerFired eventId workerIndex

theorem fault_plain (performed : broker.outbox = []) (read : List Event) (fault : Fault) :
    Plain cfg broker read (broker.fault fault) := by
  constructor <;> simp [Broker.fault, performed]

theorem handleCommand_plain (performed : broker.outbox = []) (oracle : Oracle) (sender : Thread)
    {cmd : Command} (other : isRequest cmd = false) :
    Plain cfg broker [.handled sender cmd] (broker.handleCommand cfg oracle sender cmd) := by
  cases cmd with
  | request => simp [isRequest] at other
  | quit => constructor <;> simp [Broker.handleCommand, Reactor.setShouldQuit, performed]
  | connect endpoint =>
    simp only [Broker.handleCommand, Broker.handleConnectCommand, Broker.fault, Broker.emit]
    split <;> constructor <;> simp [performed, Reactor.addSocket]
  | bind endpoint =>
    simp only [Broker.handleCommand, Broker.handleBindCommand, Broker.fault, Broker.emit]
    split <;> constructor <;> simp [performed, Reactor.addSocket]
  | unbind endpoint =>
    simp only [Broker.handleCommand, Broker.handleUnbindCommand]
    split <;> constructor <;> simp [performed, Reactor.delSocket]
  | reply info data =>
    simp only [Broker.handleCommand, Broker.forwardTo, Broker.fault, Broker.emit]
    split <;> constructor <;> simp [performed]
  | runClosure | registerSvc =>
    constructor <;> simp +contextual [Broker.handleCommand, Broker.emit, performed, Caused]

theorem handleSocket_plain (performed : broker.outbox = []) (info : ConnectionInfo)
    (frames : List Frame) : Plain cfg broker [] (broker.handleSocket cfg info frames) := by
  unfold Broker.handleSocket
  split <;> constructor <;> simp +contextual [Broker.emit, performed, Caused]

theorem receive_plain (performed : broker.outbox = []) (callback : SocketCallback)
    (frames : List Frame) : Plain cfg broker [] (broker.receive cfg callback frames) := by
  cases callback with
  | frontend => exact fault_plain cfg broker performed _ _
  | dealer index =>
    simp only [Broker.receive, Broker.handleDealerSocket]
    split
    · exact fault_plain cfg broker performed _ _
    · split
      · exact fault_plain cfg broker performed _ _
      · exact handleSocket_plain cfg broker performed _ _
  | router index =>
    simp only [Broker.receive, Broker.handleRouterSocket]
    split
    · exact fault_plain cfg broker performed _ _
    · split
      · exact fault_plain cfg broker performed _ _
      · split
        · exact handleSocket_plain cfg broker performed _ _
        · constructor <;> simp [performed]

theorem rebuildPollItems_closures {reactor rebuilt : Reactor SocketCallback Thread TimeoutClosure}
    {ran : List Thread} (done : reactor.rebuildPollItems = some (rebuilt, ran)) :
    rebuilt.closureRunMap = reactor.closureRunMap := by
  unfold Reactor.rebuildPollItems at done
  split at done
  · cases done
  · simp only [Option.some.injEq, Prod.mk.injEq] at done
    rw [← done.1]

theorem loopTop_plain (performed : broker.outbox = []) : Plain cfg broker [] broker.loopTop := by
  unfold Broker.loopTop
  split
  · constructor <;> simp [performed]
  · split
    · split
      · exact fault_plain cfg broker performed _ _
      · next rebuilt ran done =>
        refine ⟨rebuildPollItems_closures done, ?_, ?_, ?_, fun event member => ?_⟩
        · simp [Broker.emit, performed]
        · simp [Broker.emit, performed]
        · simp [Broker.emit, performed]
        · obtain ⟨pair, _, rfl⟩ := List.mem_map.mp member
          simp
    · constructor <;> simp [performed]

theorem afterPoll_plain (performed : broker.outbox = []) (outcome : PollOutcome) :
    Plain cfg broker [] (broker.afterPoll outcome) := by
  cases outcome with
  | efault => exact fault_plain cfg broker performed _ _
  | ready | error | eterm =>
    constructor <;> simp [Broker.afterPoll, Reactor.setRevents, performed]

end Handlers

/-! ## Where the parts of a request come from -/

structure Provenance (cfg : Config) (events : List Event) (process : Process) : Prop where
  queued : ∀ worker cmd, .queued worker cmd ∈ events → Caused cfg events worker cmd
  sends : ∀ info socket frames ctrl, .send info socket frames (some ctrl) ∈ process.broker.outbox →
    Started cfg events info ctrl
  forwards : ∀ info frames ctrl, .forwarded info frames (some ctrl) ∈ events →
    Started cfg events info ctrl
  timers : process.broker.phase ≠ .faulted →
    ∀ timer ∈ timersIn process.broker.reactor.closureRunMap, Timed cfg events timer
  fired : ∀ eventId workerIndex, .timerFired eventId workerIndex ∈ events →
    Timed cfg events ⟨eventId, workerIndex⟩

variable {cfg : Config} {process after : Process} {events emitted : List Event}
  {allowed : Process → Action → Prop}

theorem Provenance.step (known : Provenance cfg events process)
    (queued : ∀ worker cmd, .queued worker cmd ∈ emitted → Caused cfg (events ++ emitted) worker cmd)
    (sends : ∀ info socket frames ctrl, .send info socket frames (some ctrl) ∈ after.broker.outbox →
      .send info socket frames (some ctrl) ∈ process.broker.outbox ∨
        Started cfg (events ++ emitted) info ctrl)
    (forwards : ∀ info frames ctrl, .forwarded info frames (some ctrl) ∈ emitted →
      Started cfg (events ++ emitted) info ctrl)
    (timers : after.broker.phase ≠ .faulted →
      ∀ timer ∈ timersIn after.broker.reactor.closureRunMap,
        (process.broker.phase ≠ .faulted ∧ timer ∈ timersIn process.broker.reactor.closureRunMap) ∨
          Timed cfg (events ++ emitted) timer)
    (fired : ∀ eventId workerIndex, .timerFired eventId workerIndex ∈ emitted →
      Timed cfg (events ++ emitted) ⟨eventId, workerIndex⟩) :
    Provenance cfg (events ++ emitted) after := by
  constructor
  · intro worker cmd member
    rcases List.mem_append.mp member with old | new
    · exact (known.queued worker cmd old).mono (List.subset_append_left ..)
    · exact queued worker cmd new
  · intro info socket frames ctrl member
    rcases sends info socket frames ctrl member with old | started
    · exact (known.sends info socket frames ctrl old).later emitted
    · exact started
  · intro info frames ctrl member
    rcases List.mem_append.mp member with old | new
    · exact (known.forwards info frames ctrl old).later emitted
    · exact forwards info frames ctrl new
  · intro live timer member
    rcases timers live timer member with ⟨before, old⟩ | timed
    · exact (known.timers before timer old).later emitted
    · exact timed
  · intro eventId workerIndex member
    rcases List.mem_append.mp member with old | new
    · exact (known.fired eventId workerIndex old).later emitted
    · exact fired eventId workerIndex new

theorem Provenance.silent_step (known : Provenance cfg events process)
    (outbox : after.broker.outbox = process.broker.outbox)
    (closures : after.broker.reactor.closureRunMap = process.broker.reactor.closureRunMap)
    (phase : after.broker.phase ≠ .faulted → process.broker.phase ≠ .faulted)
    (elsewhere : ∀ event ∈ emitted, (origin event ≠ .broker ∨ ∃ fault, event = .faulted fault) ∧
      (origin event ≠ .queued ∨ ∃ worker, event = .queued worker .quitWorker)) :
    Provenance cfg (events ++ emitted) after := by
  have apart : ∀ event ∈ emitted, (∀ info frames ctrl, event ≠ .forwarded info frames (some ctrl)) ∧
      (∀ eventId workerIndex, event ≠ .timerFired eventId workerIndex) ∧
      ∀ worker cmd, event = .queued worker cmd → cmd = .quitWorker := by
    intro event member
    obtain ⟨broker, queued⟩ := elsewhere event member
    cases event <;> simp_all [origin]
  refine known.step ?_ ?_ ?_ ?_ ?_
  · intro worker cmd member
    cases (apart _ member).2.2 worker _ rfl
    trivial
  · intro info socket frames ctrl member
    exact .inl (outbox ▸ member)
  · intro info frames ctrl member
    exact absurd rfl ((apart _ member).1 info frames ctrl)
  · intro live timer member
    exact .inl ⟨phase live, closures ▸ member⟩
  · intro eventId workerIndex member
    exact absurd rfl ((apart _ member).2.1 eventId workerIndex)

theorem Provenance.starts (known : Provenance cfg events process) {worker : Nat} {ctrl : Controller}
    (member : .queued worker (.startRpc ctrl) ∈ events) :
    ∃ info, worker = cfg.getWorkerIndex info ∧ Started cfg events info ctrl :=
  known.queued worker _ member

theorem Provenance.closings (known : Provenance cfg events process) {worker : Nat} {cmd : WorkerCmd}
    {eventId : UInt64} {outcome : Outcome} (member : .queued worker cmd ∈ events)
    (closes : opOf cfg cmd = some (.closing eventId outcome)) :
    ⟨eventId, worker, outcome⟩ ∈ answers cfg events := by
  have caused := known.queued worker cmd member
  cases cmd with
  | startRpc | runClosure | registerSvc | quitWorker => simp [opOf] at closes
  | handleTimeout id =>
    simp only [opOf, Option.some.injEq, Op.closing.injEq] at closes
    obtain ⟨rfl, rfl⟩ := closes
    obtain ⟨index, rfl, fired⟩ := caused
    exact List.mem_filterMap.mpr ⟨_, fired, rfl⟩
  | handleData info header payload =>
    simp only [opOf, Option.map_eq_some_iff, Op.closing.injEq] at closes
    obtain ⟨response, readable, rfl, rfl⟩ := closes
    obtain ⟨rfl, arrived⟩ := caused
    exact List.mem_filterMap.mpr ⟨_, arrived, by simp [answerOf, readable]⟩

theorem mem_queuedEvents {outbox : List Output} {worker : Nat} {cmd : WorkerCmd} :
    .queued worker cmd ∈ queuedEvents outbox ↔ .push worker cmd ∈ outbox := by
  constructor
  · intro member
    obtain ⟨output, inside, shown⟩ := List.mem_filterMap.mp member
    cases output <;> simp at shown
    obtain ⟨rfl, rfl⟩ := shown
    exact inside
  · exact fun inside => List.mem_filterMap.mpr ⟨_, inside, rfl⟩

theorem not_queued_of_broker {reported : List Event} (silent : ∀ event ∈ reported, origin event = .broker)
    {worker : Nat} {cmd : WorkerCmd} : .queued worker cmd ∉ reported := by
  intro member
  have source := silent _ member
  simp [origin] at source

theorem Provenance.plain_step (known : Provenance cfg events process) (live : process.broker.phase ≠ .faulted)
    {result : Broker × List Event} {read : List Event}
    (plain : Plain cfg process.broker read result)
    (silent : ∀ event ∈ result.2, origin event = .broker)
    (commands : ∀ event ∈ read, ∃ sender cmd, event = .handled sender cmd)
    (broker : after.broker = result.1) :
    Provenance cfg (events ++ (read ++ (result.2 ++ queuedEvents result.1.outbox))) after := by
  have queuedLast : ∀ worker cmd,
      .queued worker cmd ∈ read ++ (result.2 ++ queuedEvents result.1.outbox) →
      .queued worker cmd ∈ queuedEvents result.1.outbox := by
    intro worker cmd member
    rcases List.mem_append.mp member with first | later
    · obtain ⟨sender, cmd, same⟩ := commands _ first
      cases same
    · rcases List.mem_append.mp later with reported | queued
      · exact absurd reported (not_queued_of_broker silent)
      · exact queued
  have reportedOnly : ∀ event, origin event = .broker →
      event ∈ read ++ (result.2 ++ queuedEvents result.1.outbox) → event ∈ result.2 := by
    intro event source member
    rcases List.mem_append.mp member with first | later
    · obtain ⟨sender, cmd, rfl⟩ := commands _ first
      simp [origin] at source
    · rcases List.mem_append.mp later with reported | queued
      · exact reported
      · rw [queuedEvents_origin event queued] at source
        cases source
  refine known.step ?_ ?_ ?_ ?_ ?_
  · intro worker cmd member
    refine (plain.pushes worker cmd (mem_queuedEvents.mp (queuedLast _ _ member))).mono ?_
    rw [← List.append_assoc read]
    exact List.Subset.trans (List.subset_append_left ..) (List.subset_append_right ..)
  · intro info socket frames ctrl member
    exact absurd (broker ▸ member) (plain.sends info socket frames ctrl)
  · intro info frames ctrl member
    exact absurd rfl ((plain.reports _ (reportedOnly _ rfl member)).1 info frames (some ctrl))
  · intro _ timer member
    rw [broker, plain.closures] at member
    exact .inl ⟨live, member⟩
  · intro eventId workerIndex member
    exact absurd rfl ((plain.reports _ (reportedOnly _ rfl member)).2 eventId workerIndex)

theorem Provenance.timer_step (known : Provenance cfg events process)
    (live : process.broker.phase ≠ .faulted) (performed : process.broker.outbox = []) (now : UInt64) :
    Provenance cfg (events ++ ((process.broker.runTimers cfg now).2 ++
        queuedEvents (process.broker.runTimers cfg now).1.outbox))
      { process with broker := (process.broker.runTimers cfg now).1 } := by
  have silent := runTimers_origin cfg process.broker now
  have parts := due_append_notDue now process.broker.reactor.closureRunMap
  refine known.step ?_ ?_ ?_ ?_ ?_
  · intro worker cmd member
    rcases List.mem_append.mp member with reported | queued
    · exact absurd reported (not_queued_of_broker silent)
    · have pushed := mem_queuedEvents.mp queued
      simp only [Broker.runTimers, Broker.emit, performed, List.nil_append, List.mem_map,
        Output.push.injEq] at pushed
      obtain ⟨closure, due, rfl, rfl⟩ := pushed
      refine ⟨closure.workerIndex, rfl, List.mem_append_right _ (List.mem_append_left _ ?_)⟩
      exact List.mem_map.mpr ⟨closure, due, rfl⟩
  · intro info socket frames ctrl member
    simp [Broker.runTimers, Broker.emit, performed] at member
  · intro info frames ctrl member
    rcases List.mem_append.mp member with reported | queued
    · simp [Broker.runTimers] at reported
    · simpa [origin] using queuedEvents_origin _ queued
  · intro _ timer member
    refine .inl ⟨live, ?_⟩
    rw [← parts]
    exact List.mem_append_right _ member
  · intro eventId workerIndex member
    rcases List.mem_append.mp member with reported | queued
    · simp only [Broker.runTimers, Reactor.processClosureRunMap, List.mem_map,
        Event.timerFired.injEq] at reported
      obtain ⟨closure, due, rfl, rfl⟩ := reported
      refine (known.timers live closure ?_).later _
      rw [← parts]
      exact List.mem_append_left _ due
    · simpa [origin] using queuedEvents_origin _ queued

theorem Provenance.request_step (known : Provenance cfg events process)
    (broker : Broker) (live : process.broker.phase ≠ .faulted) (performed : broker.outbox = [])
    (closures : broker.reactor.closureRunMap = process.broker.reactor.closureRunMap)
    (oracle : Oracle) (sender : Thread) (info : ConnectionInfo) (ctrl : Controller)
    (data : List Frame) {result : Broker × List Event}
    (same : broker.sendRequest cfg oracle info ctrl data = result)
    (sent : after.broker = result.1) :
    Provenance cfg (events ++ .handled sender (.request info ctrl data) ::
      (result.2 ++ queuedEvents result.1.outbox)) after := by
  obtain ⟨timers, outcome⟩ := sendRequest_cases cfg broker performed oracle info ctrl data
  rw [same] at timers outcome
  have handled : (⟨sender, info, ctrl⟩ : Issued) ∈ handledRequests (events ++
      .handled sender (.request info ctrl data) :: (result.2 ++ queuedEvents result.1.outbox)) := by
    refine List.mem_filterMap.mpr ⟨.handled sender (.request info ctrl data), by simp, rfl⟩
  rcases outcome with ⟨fault, faulted, unsent, report⟩ | ⟨socket, outbox, report⟩
  · rw [unsent, report]
    refine known.step ?_ ?_ ?_ ?_ ?_
    · simp [queuedEvents]
    · simp [sent, unsent]
    · simp [queuedEvents]
    · intro alive
      rw [sent] at alive
      exact absurd faulted alive
    · simp [queuedEvents]
  · rw [outbox, report] at handled ⊢
    simp only [queuedEvents, List.filterMap_cons, List.filterMap_nil, List.nil_append] at handled ⊢
    have started : Started cfg (events ++ [.handled sender (.request info ctrl data),
        .queued (cfg.getWorkerIndex info) (.startRpc ctrl)]) info ctrl :=
      ⟨⟨sender, handled⟩, by simp⟩
    refine known.step ?_ ?_ ?_ ?_ ?_
    · intro worker cmd member
      simp only [List.mem_cons, reduceCtorEq, Event.queued.injEq, List.not_mem_nil, or_false,
        false_or] at member
      obtain ⟨rfl, rfl⟩ := member
      exact ⟨info, rfl, started⟩
    · intro info' socket' frames ctrl' member
      simp only [sent, outbox, List.mem_cons, Output.send.injEq, Option.some.injEq, reduceCtorEq,
        List.not_mem_nil, or_false] at member
      obtain ⟨rfl, _, _, rfl⟩ := member
      exact .inr started
    · simp
    · intro _ timer member
      rw [sent] at member
      rcases timers timer member with old | ⟨finite, new⟩
      · exact .inl ⟨live, closures ▸ old⟩
      · exact .inr ⟨info, ctrl, started, finite, new⟩
    · simp

theorem Provenance.flush_step (known : Provenance cfg events process) {output : Output}
    {rest : List Output} (live : process.broker.phase ≠ .faulted)
    (unperformed : process.broker.outbox = output :: rest) :
    Provenance cfg (events ++ ((process.setOutbox rest).perform output).2)
      ((process.setOutbox rest).perform output).1 := by
  have remaining := perform_outbox (process.setOutbox rest) output
  have silent := perform_origin (process.setOutbox rest) output
  refine known.step ?_ ?_ ?_ ?_ ?_
  · exact fun worker cmd member => absurd member (not_queued_of_broker silent)
  · intro info socket frames ctrl member
    rw [remaining] at member
    exact .inl (unperformed ▸ List.mem_cons_of_mem _ member)
  · intro info frames ctrl member
    cases output with
    | push | reply => simp [Process.perform] at member
    | send info' socket frames' cause =>
      simp only [Process.perform] at member
      split at member
      · simp [Broker.fault] at member
      · simp only [List.mem_singleton, Event.forwarded.injEq] at member
        obtain ⟨rfl, rfl, rfl⟩ := member
        exact (known.sends info socket frames ctrl (unperformed ▸ List.mem_cons_self ..)).later _
  · intro _ timer member
    refine .inl ⟨live, ?_⟩
    cases output with
    | push | reply => exact member
    | send info socket frames cause =>
      simp only [Process.perform] at member
      split at member <;> exact member
  · intro eventId workerIndex member
    cases output with
    | push | reply => simp [Process.perform] at member
    | send info socket frames cause =>
      simp only [Process.perform] at member
      split at member <;> simp [Broker.fault] at member

theorem provenance_of_run (run : Run (machine cfg) allowed events process) :
    Provenance cfg events process := by
  refine Steps.invariant (Provenance cfg) ?_ ?_ run
  · constructor <;> simp [machine, Process.new, Broker.new, Reactor.addSocket, timersIn]
  · intro events process action emitted after _ known _ fired
    cases step_move fired with
    | thread thread action after emitted running move =>
      obtain ⟨broker, _, _, _, silent⟩ := threadMove_frame move
      refine known.silent_step (by rw [broker]) (by rw [broker]) (by rw [broker]; exact id)
        (fun event member => ?_)
      rw [silent event member]
      exact ⟨.inl (by decide), .inl (by decide)⟩
    | loopTop phase performed =>
      exact known.plain_step (by simp [phase]) (loopTop_plain cfg _ performed) (loopTop_origin _)
        (by simp) rfl
    | timers now phase performed => exact known.timer_step (by simp [phase]) performed now
    | poll outcome phase performed =>
      exact known.plain_step (by simp [phase]) (afterPoll_plain cfg _ performed outcome)
        (afterPoll_origin _ _) (by simp) rfl
    | finished input i phase performed slot =>
      exact known.silent_step rfl rfl (by simp [phase]) (by simp)
    | quiet input i phase performed slot =>
      exact known.silent_step rfl rfl (by simp [phase]) (by simp)
    | outOfRange => exact known.silent_step rfl rfl (by simp) (by simp [origin])
    | command i sender oracle cmd rest phase performed slot unread result same =>
      cases kind : isRequest cmd with
      | false =>
        have plain := handleCommand_plain cfg { process.broker with phase := .dispatch (i + 1) }
          performed oracle sender kind
        rw [same] at plain
        exact known.plain_step (by simp [phase])
          ⟨plain.closures, plain.sends, plain.starts, plain.pushes, plain.reports⟩
          (same ▸ handleCommand_origin _ _ _ _ _) (by simp) rfl
      | true =>
        cases cmd with
        | request info ctrl data =>
          exact known.request_step { process.broker with phase := .dispatch (i + 1) }
            (by simp [phase]) performed rfl oracle sender info ctrl data same rfl
        | _ => simp [isRequest] at kind
    | message i callback frames phase performed slot network nonempty result same =>
      have plain := receive_plain cfg { process.broker with phase := .dispatch (i + 1) } performed
        callback frames
      rw [same] at plain
      exact known.plain_step (by simp [phase])
        ⟨plain.closures, plain.sends, plain.starts, plain.pushes, plain.reports⟩
        (same ▸ receive_origin _ _ _ _) (by simp) rfl
    | flush output rest live unperformed => exact known.flush_step live unperformed
    | worker index cmd rest legal running idle unread result same =>
      have silent : ∀ event ∈ result.events, origin event = .worker :=
        same ▸ exec_origin _ _ _ _ _ _
      refine known.silent_step rfl rfl id (fun event member => ?_)
      rcases List.mem_cons.mp member with rfl | later
      · simp [origin]
      · rw [silent event later]
        exact ⟨.inl (by decide), .inl (by decide)⟩
    | release | joinWorkers => exact known.silent_step rfl rfl id (by simp [origin])
    | joinBroker => exact known.silent_step rfl rfl id (by simp [origin])

end Rpcz.RequestLog
