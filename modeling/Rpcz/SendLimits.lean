import Rpcz.SocketUse

/-!
The broker's sends on bounded pipes. A pipe takes as many unread messages as the
send high-water mark of its socket allows. A ROUTER drops what does not fit; a
DEALER waits, and with it the one thread that serves every other connection.
-/

namespace Rpcz.SendLimits
open Automaton Message EventLog ReactorLoop BrokerThread Moves History BrokerSockets BrokerFaults
  SocketUse HeaderCodec
open ProcessModel hiding Action machine

/-- Set in `handle_bind_command`. -/
def routerSendHwm : Nat := 1000 * 1000

/-- Set in `manager::manager` for the frontend socket, a ROUTER too. -/
def frontendSendHwm : Nat := 10 * 1000 * 1000

/-- A dealer has one pipe, a router one for each peer. -/
structure Pipe where
  socket : Nat
  peer : Bytes
deriving DecidableEq

def pipeTo (info : ConnectionInfo) (socket : Nat) : Pipe :=
  ⟨socket, if info.isRouter then info.sender else []⟩

/-- `handle_connect_command` leaves a dealer the default `ZMQ_SNDHWM` of zmq. -/
def sendHwm (dealerSendHwm : Nat) (info : ConnectionInfo) : Nat :=
  if info.isRouter then routerSendHwm else dealerSendHwm

/-- `unread` counts the messages in a pipe that the peer has yet to read. -/
structure Loaded where
  process : Process
  unread : Pipe → Nat

inductive Action where
  | process (action : ProcessModel.Action)
  /-- The peer at the other end reads a message. -/
  | read (pipe : Pipe)
deriving DecidableEq

def Loaded.isFull (dealerSendHwm : Nat) (state : Loaded) (info : ConnectionInfo) (socket : Nat) :
    Bool :=
  sendHwm dealerSendHwm info ≤ state.unread (pipeTo info socket)

def Loaded.drop (state : Loaded) (rest : List Output) : Loaded :=
  { state with process := state.process.setOutbox rest }

/-- The broker performs its next effect; a send on a full dealer is not enabled. -/
def Loaded.flush (dealerSendHwm : Nat) (state : Loaded) : Option (Loaded × List Event) :=
  match state.process.broker.outbox with
  | .send info socket _ _ :: rest =>
    if state.isFull dealerSendHwm info socket then
      if info.isRouter then some (state.drop rest, []) else none
    else
      state.process.flush.map fun result =>
        (⟨result.1, Function.update state.unread (pipeTo info socket)
          (state.unread (pipeTo info socket) + 1)⟩, result.2)
  | .reply receiver _ :: rest =>
    if frontendSendHwm ≤ (state.process.replies receiver).length then some (state.drop rest, [])
    else state.process.flush.map fun result => (⟨result.1, state.unread⟩, result.2)
  | _ => state.process.flush.map fun result => (⟨result.1, state.unread⟩, result.2)

def Loaded.step (dealerSendHwm : Nat) (cfg : Config) (state : Loaded) :
    Action → Option (Loaded × List Event)
  | .process .flush => state.flush dealerSendHwm
  | .process action =>
    (state.process.step cfg action).map fun result => (⟨result.1, state.unread⟩, result.2)
  | .read pipe =>
    if 0 < state.unread pipe then
      some ({ state with unread := Function.update state.unread pipe (state.unread pipe - 1) }, [])
    else none

def machine (dealerSendHwm : Nat) (cfg : Config) : Machine Loaded Action Event :=
  ⟨⟨Process.new, fun _ => 0⟩, Loaded.step dealerSendHwm cfg⟩

/-- The broker thread is blocked in the send of a message on a dealer. -/
def Loaded.BlockedOn (dealerSendHwm : Nat) (state : Loaded) (pipe : Pipe) : Prop :=
  ∃ info socket frames cause rest,
    state.process.broker.outbox = .send info socket frames cause :: rest ∧
      info.isRouter = false ∧ pipeTo info socket = pipe ∧ state.isFull dealerSendHwm info socket = true

def Loaded.Blocked (dealerSendHwm : Nat) (state : Loaded) : Prop :=
  ∃ pipe, state.BlockedOn dealerSendHwm pipe

/-- The dispatch loop is about to run the callback of the frontend socket. -/
def frontendReady (broker : Broker) : Bool :=
  match broker.phase with
  | .dispatch i => broker.reactor.slot i = .ready .frontend
  | _ => false

/-- The broker reads no request or reply for a dealer whose pipe is full. -/
def HasRoom (dealerSendHwm : Nat) (state : Loaded) : Action → Prop
  | .process action =>
    frontendReady state.process.broker = true →
      ∀ info ∈ forwardTarget state.process action, info.isRouter = false →
        ∀ socket ∈ state.process.broker.socketOf info, state.isFull dealerSendHwm info socket = false
  | .read _ => True

instance (dealerSendHwm : Nat) (state : Loaded) (action : Action) :
    Decidable (HasRoom dealerSendHwm state action) :=
  match action with
  | .process _ => inferInstanceAs (Decidable (_ → ∀ info ∈ _, _ → ∀ socket ∈ _, _))
  | .read _ => .isTrue trivial

def sends (outbox : List Output) : List (ConnectionInfo × Nat) :=
  outbox.filterMap fun
    | .send info socket _ _ => some (info, socket)
    | _ => none

section Outbox
variable {cfg : Config} {process after : Process} {emitted : List Event}

theorem sends_handleSocket (broker : Broker) (performed : broker.outbox = [])
    (info : ConnectionInfo) (frames : List Frame) :
    sends (broker.handleSocket cfg info frames).1.outbox = [] := by
  unfold Broker.handleSocket
  split
  · simp [Broker.emit, performed, sends]
  · simp [performed, sends]

theorem sends_receive (broker : Broker) (performed : broker.outbox = [])
    (callback : SocketCallback) (frames : List Frame) :
    sends (broker.receive cfg callback frames).1.outbox = [] := by
  have nothing : sends broker.outbox = [] := by rw [performed]; rfl
  cases callback with
  | frontend => exact nothing
  | dealer index =>
    simp only [Broker.receive, Broker.handleDealerSocket]
    split
    · exact nothing
    · split
      · exact nothing
      · exact sends_handleSocket broker performed _ _
  | router index =>
    simp only [Broker.receive, Broker.handleRouterSocket]
    split
    · exact nothing
    · split
      · exact nothing
      · split
        · exact sends_handleSocket broker performed _ _
        · exact nothing

theorem sends_handleCommand (cfg : Config) (broker : Broker) (performed : broker.outbox = []) (oracle : Oracle)
    (sender : Thread) (cmd : Command) :
    sends (broker.handleCommand cfg oracle sender cmd).1.outbox = [] ∨
      ∃ info socket frames cause rest,
        (broker.handleCommand cfg oracle sender cmd).1.outbox =
          .send info socket frames cause :: rest ∧
        sends rest = [] ∧ forwardedTo cmd = some info ∧ broker.socketOf info = some socket := by
  have nothing : sends broker.outbox = [] := by rw [performed]; rfl
  cases cmd with
  | quit => exact .inl nothing
  | runClosure closure | registerSvc info name svc =>
    refine .inl ?_
    simp [Broker.handleCommand, Broker.emit, performed, sends]
  | connect endpoint =>
    refine .inl ?_
    simp only [Broker.handleCommand, Broker.handleConnectCommand]
    split <;> simp [Broker.emit, Broker.fault, performed, sends]
  | bind endpoint =>
    refine .inl ?_
    simp only [Broker.handleCommand, Broker.handleBindCommand]
    split <;> simp [Broker.emit, Broker.fault, performed, sends]
  | unbind endpoint =>
    refine .inl ?_
    simp only [Broker.handleCommand, Broker.handleUnbindCommand]
    split <;> exact nothing
  | reply info data =>
    simp only [Broker.handleCommand, Broker.forwardTo]
    split
    · exact .inl nothing
    · next socket found =>
      refine .inr ⟨info, socket, Broker.wireFrames info data, none, [], ?_, rfl, rfl, found⟩
      simp [Broker.emit, performed]
  | request info ctrl data =>
    obtain ⟨closures, same⟩ := sendRequest_timers cfg broker oracle info ctrl data
    simp only [Broker.handleCommand, same]
    split
    · exact .inl nothing
    · next socket found =>
      refine .inr ⟨info, socket, Broker.wireFrames info data, some ctrl,
        [.push (cfg.getWorkerIndex info) (.startRpc ctrl)], ?_, rfl, rfl, found⟩
      simp [Broker.emit, performed]

theorem forwards_handleCommand (cfg : Config) (broker : Broker) (performed : broker.outbox = []) (oracle : Oracle)
    (sender : Thread) {cmd : Command} {info : ConnectionInfo} {socket : Nat}
    (target : forwardedTo cmd = some info) (found : broker.socketOf info = some socket) :
    ∃ frames cause rest, (broker.handleCommand cfg oracle sender cmd).1.outbox =
      .send info socket frames cause :: rest := by
  cases cmd with
  | reply other data =>
    cases target
    refine ⟨Broker.wireFrames info data, none, [], ?_⟩
    simp [Broker.handleCommand, Broker.forwardTo, found, Broker.emit, performed]
  | request other ctrl data =>
    cases target
    obtain ⟨closures, same⟩ := sendRequest_timers cfg broker oracle info ctrl data
    refine ⟨Broker.wireFrames info data, some ctrl,
      [.push (cfg.getWorkerIndex info) (.startRpc ctrl)], ?_⟩
    simp [Broker.handleCommand, same, found, Broker.emit, performed]
  | _ => cases target

theorem sends_move {action : ProcessModel.Action}
    (move : Move cfg process action after emitted) (other : action ≠ .flush) :
    after.broker.outbox = process.broker.outbox ∨ sends after.broker.outbox = [] ∨
      ∃ info socket frames cause rest,
        after.broker.outbox = .send info socket frames cause :: rest ∧ sends rest = [] ∧
        frontendReady process.broker = true ∧ forwardTarget process action = some info ∧
        process.broker.socketOf info = some socket := by
  cases move with
  | thread thread action after emitted running move =>
    rw [(threadMove_frame move).1]
    exact .inl rfl
  | loopTop phase performed =>
    refine .inr (.inl ?_)
    unfold Broker.loopTop
    split
    · simp [performed, sends]
    · split
      · split
        · simp [Broker.fault, performed, sends]
        · simp [Broker.emit, performed, sends, List.filterMap_map]
      · simp [performed, sends]
  | timers now phase performed =>
    refine .inr (.inl ?_)
    simp [Broker.runTimers, Broker.emit, performed, sends, List.filterMap_map]
  | poll outcome phase performed => cases outcome <;> exact .inl rfl
  | finished | quiet | outOfRange | worker | release | joinBroker | joinWorkers => exact .inl rfl
  | command i sender oracle cmd rest phase performed slot unread result same =>
    subst same
    right
    rcases sends_handleCommand cfg { process.broker with phase := .dispatch (i + 1) }
      performed oracle sender cmd with silent | ⟨info, socket, frames, cause, later, shape, last,
        target, found⟩
    · exact .inl silent
    · refine .inr ⟨info, socket, frames, cause, later, shape, last, ?_, ?_, found⟩
      · simp [frontendReady, phase, slot]
      · simp [forwardTarget, readCommand, unread, target]
  | message i callback frames phase performed slot network nonempty result same =>
    subst same
    exact .inr (.inl (sends_receive { process.broker with phase := .dispatch (i + 1) } performed
      callback frames))
  | flush => exact absurd rfl other

theorem outbox_waits {action : ProcessModel.Action}
    (move : Move cfg process action after emitted) (other : action ≠ .flush)
    (waiting : process.broker.outbox ≠ []) : after.broker.outbox = process.broker.outbox := by
  cases move with
  | thread thread action after emitted running move => rw [(threadMove_frame move).1]
  | flush => exact absurd rfl other
  | worker | release | joinWorkers => rfl
  | loopTop _ performed | timers _ _ performed | poll _ _ performed | finished _ _ _ performed
  | quiet _ _ _ performed | outOfRange _ _ _ performed | joinBroker _ _ performed =>
    exact absurd performed waiting
  | command _ _ _ _ _ _ performed | message _ _ _ _ performed => exact absurd performed waiting

end Outbox

section Runs
variable {dealerSendHwm : Nat} {cfg : Config} {state after : Loaded} {events emitted : List Event} {pipe : Pipe}

/-- One message at most waits to be sent, it is the next effect, and a dealer
takes it. -/
def Loaded.Ready (dealerSendHwm : Nat) (state : Loaded) : Prop :=
  sends state.process.broker.outbox = [] ∨
    ∃ info socket frames cause rest,
      state.process.broker.outbox = .send info socket frames cause :: rest ∧ sends rest = [] ∧
      (info.isRouter = false → state.isFull dealerSendHwm info socket = false)

theorem Loaded.Ready.not_blocked (ready : state.Ready dealerSendHwm) : ¬ state.Blocked dealerSendHwm := by
  rintro ⟨pipe, info, socket, frames, cause, rest, shape, dealer, -, full⟩
  rcases ready with silent | ⟨other, id, data, request, later, same, -, room⟩
  · rw [shape] at silent
    cases silent
  · rw [shape] at same
    cases same
    rw [room dealer] at full
    cases full

theorem sends_tail {output : Output} {rest : List Output} (silent : sends (output :: rest) = []) :
    sends rest = [] := by
  cases output with
  | send => cases silent
  | push | reply => exact silent

theorem flush_outbox (fired : state.flush dealerSendHwm = some (after, emitted)) :
    ∃ output, state.process.broker.outbox = output :: after.process.broker.outbox := by
  have performs : ∀ result, state.process.flush = some result →
      ∃ output, state.process.broker.outbox = output :: result.1.broker.outbox := by
    rintro ⟨after, events⟩ done
    have move : Move plain state.process .flush after events := flush_move done
    cases move with
    | flush output rest live shape =>
      refine ⟨output, ?_⟩
      rw [perform_outbox]
      exact shape
  unfold Loaded.flush at fired
  split at fired
  · next shape =>
    split at fired
    · split at fired <;> cases fired
      exact ⟨_, shape⟩
    · obtain ⟨result, done, same⟩ := Option.map_eq_some_iff.mp fired
      cases same
      exact performs result done
  · next shape =>
    split at fired
    · cases fired
      exact ⟨_, shape⟩
    · obtain ⟨result, done, same⟩ := Option.map_eq_some_iff.mp fired
      cases same
      exact performs result done
  · obtain ⟨result, done, same⟩ := Option.map_eq_some_iff.mp fired
    cases same
    exact performs result done

theorem step_cases {action : Action} (fired : (machine dealerSendHwm cfg).step state action = some (after, emitted)) :
    (action = .process .flush ∧ state.flush dealerSendHwm = some (after, emitted)) ∨
    (∃ inner, action = .process inner ∧ inner ≠ .flush ∧
      Move cfg state.process inner after.process emitted ∧ after.unread = state.unread) ∨
    ∃ pipe, action = .read pipe ∧ after.process = state.process ∧
      after.unread = Function.update state.unread pipe (state.unread pipe - 1) := by
  cases action with
  | read pipe =>
    simp only [machine, Loaded.step] at fired
    split at fired <;> cases fired
    exact .inr (.inr ⟨pipe, rfl, rfl, rfl⟩)
  | process inner =>
    by_cases flush : inner = .flush
    · subst flush
      exact .inl ⟨rfl, fired⟩
    · have step : (state.process.step cfg inner).map
          (fun result => ((⟨result.1, state.unread⟩ : Loaded), result.2)) =
            some (after, emitted) := by
        cases inner <;> first | exact fired | exact absurd rfl flush
      obtain ⟨result, done, same⟩ := Option.map_eq_some_iff.mp step
      cases same
      exact .inr (.inl ⟨inner, rfl, flush, step_move done, rfl⟩)

theorem ready_step {action : Action} (ready : state.Ready dealerSendHwm) (room : HasRoom dealerSendHwm state action)
    (fired : (machine dealerSendHwm cfg).step state action = some (after, emitted)) : after.Ready dealerSendHwm := by
  rcases step_cases fired with ⟨-, flush⟩ | ⟨inner, rfl, other, move, same⟩ |
    ⟨pipe, -, process, unread⟩
  · left
    obtain ⟨output, shape⟩ := flush_outbox flush
    rcases ready with silent | ⟨info, socket, frames, cause, rest, first, last, -⟩
    · rw [shape] at silent
      exact sends_tail silent
    · rw [shape] at first
      rw [(List.cons.inj first).2]
      exact last
  · rcases sends_move move other with kept | silent | ⟨info, socket, frames, cause, rest, shape,
      last, reading, target, found⟩
    · simp only [Loaded.Ready, Loaded.isFull, kept, same]
      exact ready
    · exact .inl silent
    · refine .inr ⟨info, socket, frames, cause, rest, shape, last, ?_⟩
      intro dealer
      simp only [Loaded.isFull, same]
      exact room reading info target dealer socket found
  · rcases ready with silent | ⟨info, socket, frames, cause, rest, shape, last, room⟩
    · left
      rw [process]
      exact silent
    · refine .inr ⟨info, socket, frames, cause, rest, by rw [process]; exact shape, last, ?_⟩
      intro dealer
      have before := room dealer
      simp only [Loaded.isFull, decide_eq_false_iff_not, Nat.not_le] at before ⊢
      rw [unread, Function.update_apply]
      split
      · next here =>
        rw [here] at before
        omega
      · exact before

theorem ready_of_run (run : Run (machine dealerSendHwm cfg) (HasRoom dealerSendHwm) events state) : state.Ready dealerSendHwm := by
  refine Steps.invariant (fun _ state => state.Ready dealerSendHwm) (.inl rfl) ?_ run
  intro events state action emitted after _ ready room fired
  exact ready_step ready room fired

theorem blocked_step {action : Action} (full : ¬ HasRoom dealerSendHwm state action)
    (fired : (machine dealerSendHwm cfg).step state action = some (after, emitted)) : after.Blocked dealerSendHwm := by
  cases action with
  | read pipe => exact absurd trivial full
  | process inner =>
    simp only [HasRoom, not_forall, Bool.not_eq_false] at full
    obtain ⟨reading, info, target, dealer, socket, found, full⟩ := full
    rcases step_cases fired with ⟨same, -⟩ | ⟨other, same, apart, move, unread⟩ |
      ⟨pipe, same, -⟩
    · cases same
      cases target
    · cases same
      obtain ⟨process, counts⟩ := after
      change counts = state.unread at unread
      subst unread
      cases move with
      | command i sender oracle cmd rest phase performed slot first result same =>
        subst same
        have asked : forwardedTo cmd = some info := by
          simpa [forwardTarget, readCommand, first] using target
        obtain ⟨frames, cause, later, shape⟩ := forwards_handleCommand cfg
          { state.process.broker with phase := .dispatch (i + 1) } performed oracle sender asked found
        exact ⟨_, info, socket, frames, cause, later, shape, dealer, rfl, full⟩
      | finished _ _ phase _ slot | quiet _ _ phase _ slot | outOfRange _ _ phase _ slot =>
        simp [frontendReady, phase, slot] at reading
      | _ => cases target
    · cases same

theorem blocked_stays {action : Action} (blocked : state.BlockedOn dealerSendHwm pipe)
    (unread : action ≠ .read pipe)
    (fired : (machine dealerSendHwm cfg).step state action = some (after, emitted)) : after.BlockedOn dealerSendHwm pipe := by
  obtain ⟨info, socket, frames, cause, rest, shape, dealer, leads, full⟩ := blocked
  rcases step_cases fired with ⟨-, flush⟩ | ⟨inner, rfl, other, move, same⟩ |
    ⟨another, rfl, process, counts⟩
  · simp [Loaded.flush, shape, full, dealer] at flush
  · refine ⟨info, socket, frames, cause, rest, ?_, dealer, leads, ?_⟩
    · rw [outbox_waits move other (by rw [shape]; exact List.cons_ne_nil _ _)]
      exact shape
    · simp only [Loaded.isFull, same]
      exact full
  · refine ⟨info, socket, frames, cause, rest, by rw [process]; exact shape, dealer, leads, ?_⟩
    have apart : pipe ≠ another := fun same => unread (congrArg Action.read same.symm)
    simp only [Loaded.isFull, leads, decide_eq_true_eq] at full ⊢
    rw [counts, Function.update_of_ne apart]
    exact full

end Runs

/-- The broker is never blocked if it forwards nothing to a dealer whose pipe is
full; each message it does forward to one blocks it until the peer reads. -/
theorem never_blocked (dealerSendHwm : Nat) (cfg : Config) :
    (∀ events state, Run (machine dealerSendHwm cfg) (HasRoom dealerSendHwm) events state → ¬ state.Blocked dealerSendHwm) ∧
    (∀ events state action after emitted, Run (machine dealerSendHwm cfg) anyStep events state →
      (machine dealerSendHwm cfg).step state action = some (after, emitted) → ¬ HasRoom dealerSendHwm state action →
      after.Blocked dealerSendHwm) ∧
    ∀ state pipe events after, state.BlockedOn dealerSendHwm pipe →
      Steps (machine dealerSendHwm cfg) (fun _ action => action ≠ .read pipe) state events after →
      after.BlockedOn dealerSendHwm pipe := by
  refine ⟨?_, ?_, ?_⟩
  · intro events state run
    exact (ready_of_run run).not_blocked
  · intro events state action after emitted _ fired full
    exact blocked_step full fired
  · intro state pipe events after blocked steps
    refine Steps.invariant (fun _ state => state.BlockedOn dealerSendHwm pipe) blocked ?_ steps
    intro events state action emitted after _ blocked unread fired
    exact blocked_stays blocked unread fired

def linkedBroker : Broker :=
  { reactor := ⟨false, false, [(0, .frontend), (1, .dealer 1)], [],
      [⟨0, true⟩, ⟨1, false⟩], [], []⟩
    dealerSockets := [none, some 1]
    routerSockets := [none]
    bindMap := fun _ => none
    nextSocket := 2
    phase := .top
    outbox := [] }

/-- Thread 0 is connected and idle, and `count` of its requests are unread. -/
structure Linked (count : Nat) (state : Loaded) : Prop where
  broker : state.process.broker = linkedBroker
  calls : state.process.calls (.app 0) = .idle
  pipes : state.process.pipes (.app 0) = []
  running : state.process.shutdown = .running
  unread : state.unread ⟨1, []⟩ = count

/-- Thread 0 connects; the next command lets the broker see the dealer. -/
def connected : List Action :=
  (([.thread (.app 0) (.connect [1])] ++ commandTurn 1 ++
    [.thread (.app 0) .receive, .thread (.app 0) (.add 0)] ++
    commandTurn 2 : List ProcessModel.Action)).map .process

def asked : List Action :=
  ([.thread (.app 0) (.request (.dealer 1) [] [] [] none (-1)),
    .thread (.app 0) (.sendRequest true), .loopTop, .timers 0,
    .poll (.ready [true, false])] : List ProcessModel.Action).map .process

def readsRequest : Action := .process (.dispatch (.frontend (.app 0) ⟨true, 0, 0⟩))

theorem linked_start (dealerSendHwm : Nat) :
    Linked 0 (reached (machine dealerSendHwm plain) connected).1 where
  broker := by rfl
  calls := by rfl
  pipes := by rfl
  running := by rfl
  unread := by rfl

/-- The broker works while thread 0 is idle; whatever else there is stays open. -/
def working (process : Process) (broker : Broker) : Process :=
  { process with
    broker := broker
    calls := Function.update process.calls (.app 0) .idle
    pipes := Function.update process.pipes (.app 0) []
    shutdown := .running }

theorem working_self {process : Process} {broker : Broker} (same : process.broker = broker)
    (calls : process.calls (.app 0) = .idle) (pipes : process.pipes (.app 0) = [])
    (running : process.shutdown = .running) : process = working process broker := by
  rw [working, ← calls, ← pipes, Function.update_eq_self, Function.update_eq_self, ← same,
    ← running]

structure Sending (count : Nat) (state : Loaded) : Prop where
  broker : ∃ frames cause cmd, state.process.broker = { linkedBroker with
    phase := .dispatch 1
    outbox := [.send (.dealer 1) 1 frames cause, .push 0 cmd] }
  calls : state.process.calls (.app 0) = .idle
  pipes : state.process.pipes (.app 0) = []
  running : state.process.shutdown = .running
  unread : state.unread ⟨1, []⟩ = count

theorem hasRoom_dealer {dealerSendHwm : Nat} {state : Loaded} {action : ProcessModel.Action} {index socket : Nat}
    (reading : frontendReady state.process.broker = true)
    (target : forwardTarget state.process action = some (.dealer index))
    (found : state.process.broker.socketOf (.dealer index) = some socket) :
    HasRoom dealerSendHwm state (.process action) ↔ state.unread ⟨socket, []⟩ < dealerSendHwm := by
  simp only [HasRoom, reading, target, Option.mem_def, Option.some.injEq, forall_const,
    forall_eq', ConnectionInfo.dealer, Loaded.isFull, sendHwm, pipeTo, Bool.false_eq_true,
    if_false, decide_eq_false_iff_not, Nat.not_le]
  constructor
  · intro room
    exact room socket found
  · intro room other same
    have one : other = socket := Option.some.inj (same.symm.trans found)
    rw [one]
    exact room

theorem Linked.asks (dealerSendHwm : Nat) {count : Nat} {state : Loaded} (linked : Linked count state) :
    ∃ events before emitted after, Steps (machine dealerSendHwm plain) anyStep state events before ∧
      (machine dealerSendHwm plain).step before readsRequest = some (after, emitted) ∧
      (HasRoom dealerSendHwm before readsRequest ↔ count < dealerSendHwm) ∧ Sending count after := by
  have shape := working_self linked.broker linked.calls linked.pipes linked.running
  have unread := linked.unread
  obtain ⟨process, counts⟩ := state
  simp only at shape unread
  rw [shape]
  refine ⟨_, _, _, _, Steps.of_exec (rfl : exec (machine dealerSendHwm plain) _ asked = some (_, _)), rfl, ?_, ?_⟩
  · rw [readsRequest, hasRoom_dealer rfl rfl rfl, ← unread]
  · exact
      { broker := ⟨_, _, _, rfl⟩
        calls := rfl
        pipes := rfl
        running := rfl
        unread := unread }

theorem Sending.flushes (dealerSendHwm : Nat) {count : Nat} {state : Loaded}
    (sending : Sending count state)
    (room : count < dealerSendHwm) :
    ∃ events after, Steps (machine dealerSendHwm plain) anyStep state events after ∧ Linked (count + 1) after := by
  obtain ⟨process, counts⟩ := state
  obtain ⟨⟨frames, cause, cmd, broker⟩, calls, pipes, running, unread⟩ := sending
  have shape := working_self broker calls pipes running
  simp only at shape unread
  rw [shape]
  have sent : (machine dealerSendHwm plain).step ⟨working process { linkedBroker with
        phase := .dispatch 1
        outbox := [.send (.dealer 1) 1 frames cause, .push 0 cmd] }, counts⟩ (.process .flush) =
      some (⟨working process { linkedBroker with phase := .dispatch 1, outbox := [.push 0 cmd] },
        Function.update counts ⟨1, []⟩ (counts ⟨1, []⟩ + 1)⟩,
        [.forwarded (.dealer 1) frames cause]) := by
    change (if decide (dealerSendHwm ≤ counts ⟨1, []⟩) = true then _ else _) = _
    rw [if_neg (by rw [unread]; simpa using room)]
    rfl
  refine ⟨_, _, (Steps.single trivial sent).trans (Steps.of_exec (rfl : exec (machine dealerSendHwm plain) _
    [.process .flush, .process (.dispatch .nothing), .process (.dispatch .nothing)] =
      some (_, _))), ?_⟩
  exact
    { broker := rfl
      calls := rfl
      pipes := rfl
      running := rfl
      unread := by
        change counts ⟨1, []⟩ + 1 = count + 1
        rw [unread] }

theorem linked_run {dealerSendHwm : Nat} (count : Nat) (bound : count ≤ dealerSendHwm) :
    ∃ events state, Run (machine dealerSendHwm plain) anyStep events state ∧ Linked count state := by
  induction count with
  | zero => exact ⟨_, _, run_reached (machine dealerSendHwm plain) connected, linked_start dealerSendHwm⟩
  | succ count ih =>
    obtain ⟨events, state, run, linked⟩ := ih (by omega)
    obtain ⟨asking, before, emitted, after, asks, reads, -, sending⟩ := linked.asks dealerSendHwm
    obtain ⟨flushing, final, flushes, linked⟩ := sending.flushes dealerSendHwm (by omega)
    have read : Steps (machine dealerSendHwm plain) anyStep before emitted after := .single trivial reads
    exact ⟨_, final, ((Steps.trans run asks).trans read).trans flushes, linked⟩

/-- With the default mark of 1000, a thousand unread requests let the next one
block the broker. -/
theorem unreachable_blocks : ¬ ∀ cfg events state, Run (machine 1000 cfg) anyStep events state →
    ¬ state.Blocked 1000 := by
  intro claim
  obtain ⟨events, state, run, linked⟩ := linked_run 1000 (Nat.le_refl _)
  obtain ⟨asking, before, emitted, after, asks, reads, room, sending⟩ := linked.asks 1000
  have full : ¬ HasRoom 1000 before readsRequest := fun fits => Nat.lt_irrefl _ (room.mp fits)
  exact claim _ _ _ ((Steps.trans run asks).next trivial reads) (blocked_step full reads)

/-- One request with room, the request without, and what follows it. -/
theorem never_blocked_unreachable :
    ¬ (reached ((machine 1000 plain).guarded (HasRoom 1000))
        (connected ++ asked ++ [readsRequest])).1.Blocked 1000 ∧
      ∃ events state, Run (machine 1000 plain) anyStep events state ∧ state.Blocked 1000 ∧
        ∃ pipe, state.BlockedOn 1000 pipe := by
  have parts := never_blocked 1000 plain
  refine ⟨parts.1 _ _ (Steps.of_guarded (run_reached ((machine 1000 plain).guarded (HasRoom 1000))
    (connected ++ asked ++ [readsRequest]))), ?_⟩
  obtain ⟨events, state, run, linked⟩ := linked_run 1000 (Nat.le_refl _)
  obtain ⟨asking, before, emitted, after, asks, reads, room, sending⟩ := linked.asks 1000
  have full : ¬ HasRoom 1000 before readsRequest := fun fits => Nat.lt_irrefl _ (room.mp fits)
  have blocked := parts.2.1 _ _ _ _ _ (Steps.trans run asks) reads full
  obtain ⟨pipe, blockedOn⟩ := blocked
  exact ⟨_, _, (Steps.trans run asks).next trivial reads, ⟨pipe, blockedOn⟩, pipe,
    parts.2.2 _ pipe [] _ blockedOn .refl⟩

end Rpcz.SendLimits
