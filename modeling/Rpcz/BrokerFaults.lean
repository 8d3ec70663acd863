import Rpcz.BrokerSockets

/-!
What can stop the broker: an endpoint zmq refuses, a `connection_info` with an
illegal index, a failed poll, and a message put on a deleted socket. The reads
of the dispatch loop and the loop head never do.
-/

namespace Rpcz.BrokerFaults
open Automaton Message EventLog ReactorLoop WorkerThread BrokerThread ProcessModel Moves History
  SocketDeletion BrokerSockets

def readCommand (process : Process) : Action → Option (Thread × Command)
  | .dispatch (.frontend sender _) => (process.pipes sender).head?.map (fun cmd => (sender, cmd))
  | _ => none

def forwardedTo : Command → Option ConnectionInfo
  | .request info _ _ => some info
  | .reply info _ => some info
  | _ => none

def commandFault (broker : Broker) (oracle : Oracle) : Command → Option Fault
  | .connect _ => if oracle.accepts then none else some .zmqError
  | .bind _ => if oracle.accepts then none else some .zmqError
  | .request info _ _ =>
    if broker.isConnectionInfoLegal info then none else some (.illegalIndex info)
  | .reply info _ => if broker.isConnectionInfoLegal info then none else some (.illegalIndex info)
  | _ => none

def breaks (process : Process) : Action → Option Fault
  | .poll .efault => some .checkFailed
  | .flush =>
    match process.broker.outbox with
    | .send _ socket _ _ :: _ =>
      if process.broker.isClosed socket then some (.deletedSocket socket) else none
    | _ => none
  | .dispatch (.frontend sender oracle) =>
    match process.pipes sender with
    | cmd :: _ => commandFault process.broker oracle cmd
    | [] => none
  | _ => none

section Handlers
variable {cfg : Config} {broker : Broker}

theorem handleCommand_fault (sound : Sound (ownership broker)) (cfg : Config) (oracle : Oracle)
    (sender : Thread) (cmd : Command) :
    match commandFault broker oracle cmd with
    | some fault => (broker.handleCommand cfg oracle sender cmd).2 = [.faulted fault] ∧
        (broker.handleCommand cfg oracle sender cmd).1.phase = .faulted
    | none => (∀ fault, .faulted fault ∉ (broker.handleCommand cfg oracle sender cmd).2) ∧
        (broker.handleCommand cfg oracle sender cmd).1.phase = broker.phase := by
  cases cmd with
  | quit | runClosure | registerSvc =>
    simp [commandFault, Broker.handleCommand, Broker.emit]
  | connect endpoint =>
    by_cases accepted : oracle.accepts
    · simp [commandFault, Broker.handleCommand, Broker.handleConnectCommand, Broker.emit, accepted]
    · simp [commandFault, Broker.handleCommand, Broker.handleConnectCommand, Broker.fault, accepted]
  | bind endpoint =>
    by_cases accepted : oracle.accepts
    · simp [commandFault, Broker.handleCommand, Broker.handleBindCommand, Broker.emit, accepted]
    · simp [commandFault, Broker.handleCommand, Broker.handleBindCommand, Broker.fault, accepted]
  | unbind endpoint =>
    simp only [commandFault, Broker.handleCommand, Broker.handleUnbindCommand]
    split <;> simp
  | request info ctrl data =>
    obtain ⟨closures, same⟩ := sendRequest_timers cfg broker oracle info ctrl data
    simp only [commandFault, Broker.handleCommand, same]
    by_cases legal : broker.isConnectionInfoLegal info = true
    · obtain ⟨socket, found⟩ := (sound.legal info).mp legal
      simp [legal, found, Broker.emit]
    · simp [legal, sound.illegal legal, Broker.fault]
  | reply info data =>
    simp only [commandFault, Broker.handleCommand, Broker.forwardTo]
    by_cases legal : broker.isConnectionInfoLegal info = true
    · obtain ⟨socket, found⟩ := (sound.legal info).mp legal
      simp [legal, found, Broker.emit]
    · simp [legal, sound.illegal legal, Broker.fault]

theorem handleSocket_silent (info : ConnectionInfo) (frames : List Frame) :
    ∀ fault, .faulted fault ∉ (broker.handleSocket cfg info frames).2 := by
  unfold Broker.handleSocket
  split <;> simp

theorem receive_silent (sound : Sound (ownership broker)) (cfg : Config) (frames : List Frame)
    {i : Nat} {callback : SocketCallback} (slot : broker.reactor.slot i = .ready callback)
    (network : callback ≠ .frontend) :
    (∀ fault, .faulted fault ∉ (broker.receive cfg callback frames).2) ∧
      (broker.receive cfg callback frames).1.phase = broker.phase := by
  rcases sound.receive_cases cfg frames slot network with ⟨info, data, same⟩ | same
  · obtain ⟨outputs, emitted⟩ := handleSocket_fst cfg broker info data
    rw [same]
    exact ⟨handleSocket_silent info data, by rw [emitted]; rfl⟩
  · rw [same]
    exact ⟨by simp, rfl⟩

theorem loopTop_silent (sound : Sound (ownership broker)) :
    (∀ fault, .faulted fault ∉ broker.loopTop.2) ∧ broker.loopTop.1.phase ≠ .faulted := by
  rcases sound.loopTop_cases with ⟨same, _⟩ | ⟨same, _⟩ | ⟨_, rebuilt, removed, ran, _, same⟩
  · simp [same]
  · simp [same]
  · simp [same, Broker.emit]

end Handlers

theorem queuedEvents_silent (outbox : List Output) (fault : Fault) :
    .faulted fault ∉ queuedEvents outbox := by
  intro member
  simpa [origin] using queuedEvents_origin _ member

variable {cfg : Config} {process after : Process} {events emitted : List Event}
  {allowed : Process → Action → Prop}

theorem fault_cause (sound : process.broker.phase ≠ .faulted → Sound (ownership process.broker))
    {action : Action} (move : Move cfg process action after emitted) :
    (∀ fault, .faulted fault ∈ emitted → breaks process action = some fault) ∧
      (after.broker.phase = .faulted →
        process.broker.phase = .faulted ∨ (breaks process action).isSome) := by
  cases move with
  | thread thread action after emitted running move =>
    have frame := threadMove_frame move
    refine ⟨fun fault member => ?_, fun stopped => .inl (by rw [← frame.1, stopped])⟩
    simpa [origin] using frame.2.2.2.2 _ member
  | loopTop phase performed =>
    obtain ⟨silent, alive⟩ := loopTop_silent (sound (by simp [phase]))
    refine ⟨fun fault member => ?_, fun stopped => absurd stopped alive⟩
    rcases List.mem_append.mp member with left | right
    · exact absurd left (silent fault)
    · exact absurd right (queuedEvents_silent _ _)
  | timers now phase performed =>
    refine ⟨fun fault member => ?_, fun stopped => by simp [Broker.runTimers, Broker.emit] at stopped⟩
    rcases List.mem_append.mp member with left | right
    · simp [Broker.runTimers] at left
    · exact absurd right (queuedEvents_silent _ _)
  | poll outcome phase performed =>
    cases outcome with
    | efault =>
      refine ⟨fun fault member => ?_, fun _ => .inr rfl⟩
      simp only [Broker.afterPoll, Broker.fault, performed, queuedEvents, List.filterMap_nil,
        List.append_nil, List.mem_singleton, Event.faulted.injEq] at member
      rw [member]
      rfl
    | ready | error | eterm =>
      simp [Broker.afterPoll, performed, queuedEvents]
  | finished | quiet => simp
  | outOfRange input i phase performed slot =>
    exact absurd slot ((sound (by simp [phase])).slot_inside i)
  | command i sender oracle cmd rest phase performed slot unread result same =>
    subst same
    have books : Sound (ownership { process.broker with phase := .dispatch (i + 1) }) :=
      sound (by simp [phase])
    have cause : breaks process (.dispatch (.frontend sender oracle)) =
        commandFault { process.broker with phase := .dispatch (i + 1) } oracle cmd := by
      simp only [breaks, unread]
      cases cmd <;> rfl
    have spec := handleCommand_fault books cfg oracle sender cmd
    rw [cause]
    split at spec
    · next fault broken =>
      refine ⟨fun other member => ?_, fun _ => .inr (by rw [broken]; rfl)⟩
      rw [spec.1] at member
      rcases List.mem_cons.mp member with first | later
      · cases first
      · rcases List.mem_append.mp later with left | right
        · rw [broken]
          simpa [eq_comm] using left
        · exact absurd right (queuedEvents_silent _ _)
    · refine ⟨fun other member => ?_, fun stopped => ?_⟩
      · rcases List.mem_cons.mp member with first | later
        · cases first
        · rcases List.mem_append.mp later with left | right
          · exact absurd left (spec.1 other)
          · exact absurd right (queuedEvents_silent _ _)
      · rw [spec.2] at stopped
        cases stopped
  | message i callback frames phase performed slot network nonempty result same =>
    subst same
    have books : Sound (ownership { process.broker with phase := .dispatch (i + 1) }) :=
      sound (by simp [phase])
    obtain ⟨silent, continues⟩ := receive_silent books cfg frames slot network
    refine ⟨fun fault member => ?_, fun stopped => ?_⟩
    · rcases List.mem_append.mp member with left | right
      · exact absurd left (silent fault)
      · exact absurd right (queuedEvents_silent _ _)
    · rw [continues] at stopped
      cases stopped
  | flush output rest live unperformed =>
    cases output with
    | push | reply =>
      exact ⟨by simp [Process.perform], fun stopped => .inl stopped⟩
    | send info socket frames cause =>
      have closed : (process.setOutbox rest).broker.isClosed socket =
          process.broker.isClosed socket := rfl
      simp only [Process.perform, breaks, unperformed, closed]
      split <;> simp [Broker.fault, Process.setOutbox]
  | worker index cmd rest legal running idle unread result same =>
    refine ⟨fun fault member => ?_, fun stopped => .inl stopped⟩
    rcases List.mem_cons.mp member with first | later
    · cases first
    · rw [← same] at later
      simpa [origin] using exec_origin _ _ _ _ _ _ _ later
  | release => exact ⟨by simp, fun stopped => .inl stopped⟩
  | joinBroker | joinWorkers => simp_all

theorem no_fault_of_run {fault : Fault} (run : Run (machine cfg) allowed events process)
    (safe : ∀ events process action, Run (machine cfg) allowed events process →
      allowed process action → breaks process action ≠ some fault) :
    .faulted fault ∉ events := by
  refine Steps.invariant (fun events _ => .faulted fault ∉ events) (by simp) ?_ run
  intro events process action emitted after earlier before permitted fired member
  rcases List.mem_append.mp member with old | new
  · exact before old
  · exact safe events process action earlier permitted
      ((fault_cause (sound_of_run earlier) (step_move fired)).1 fault new)

theorem alive_of_run (run : Run (machine cfg) allowed events process)
    (safe : ∀ process action, allowed process action → breaks process action = none) :
    process.broker.phase ≠ .faulted := by
  refine Steps.invariant (fun _ process => process.broker.phase ≠ .faulted)
    (by simp [machine, Process.new, Broker.new]) ?_ run
  intro events process action emitted after earlier before permitted fired stopped
  rcases (fault_cause (sound_of_run earlier) (step_move fired)).2 stopped with old | new
  · exact before old
  · rw [safe process action permitted] at new
    cases new

end Rpcz.BrokerFaults
