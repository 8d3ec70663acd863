import Rpcz.BrokerSockets
import Rpcz.Registration

/-!
The messages a broker puts on its sockets and those it takes from them. It puts
the requests and replies it read, in the order in which it read them, and it
passes on the header and the payload of every message that has them.
-/

namespace Rpcz.Forwarding
open Automaton Message EventLog ReactorLoop WorkerThread BrokerThread ProcessModel Moves History
  BrokerSockets ConnectionHome Registration

/-- A message for a peer; `cause` is the request it carries. -/
structure Outgoing where
  info : ConnectionInfo
  frames : List Frame
  cause : Option Controller
deriving DecidableEq

def outgoingOf : Command → Option Outgoing
  | .request info ctrl data => some ⟨info, Broker.wireFrames info data, some ctrl⟩
  | .reply info data => some ⟨info, Broker.wireFrames info data, none⟩
  | _ => none

def asked (events : List Event) : List Outgoing :=
  events.filterMap fun
    | .handled _ cmd => outgoingOf cmd
    | _ => none

def forwards (events : List Event) : List Outgoing :=
  events.filterMap fun
    | .forwarded info frames cause => some ⟨info, frames, cause⟩
    | _ => none

def unsent (outbox : List Output) : List Outgoing :=
  outbox.filterMap fun
    | .send info _ frames cause => some ⟨info, frames, cause⟩
    | _ => none

section Projections
variable (first second : List Event)

@[simp] theorem asked_append : asked (first ++ second) = asked first ++ asked second :=
  List.filterMap_append ..

@[simp] theorem forwards_append : forwards (first ++ second) = forwards first ++ forwards second :=
  List.filterMap_append ..

theorem asked_other {events : List Event}
    (elsewhere : ∀ event ∈ events, origin event ≠ .handled) : asked events = [] := by
  refine filterMap_other .handled (fun event other => ?_) elsewhere
  cases event <;> simp_all [origin]

theorem forwards_other {events : List Event}
    (elsewhere : ∀ event ∈ events, origin event ≠ .broker) : forwards events = [] := by
  refine filterMap_other .broker (fun event other => ?_) elsewhere
  cases event <;> simp_all [origin]

theorem forwards_queued (outbox : List Output) : forwards (queuedEvents outbox) = [] :=
  forwards_other fun event member => by
    rw [queuedEvents_origin event member]
    decide

theorem mem_forwards {message : Outgoing} {events : List Event} :
    message ∈ forwards events ↔ .forwarded message.info message.frames message.cause ∈ events := by
  constructor
  · intro listed
    obtain ⟨event, member, shown⟩ := List.mem_filterMap.mp listed
    cases event <;> simp at shown
    subst shown
    exact member
  · exact fun member => List.mem_filterMap.mpr ⟨_, member, rfl⟩

end Projections

/-! ## What one handler of the broker sends -/

section Handlers
variable (cfg : Config) (broker : Broker)

structure Unsending (result : Broker × List Event) : Prop where
  unsent : unsent result.1.outbox = []
  silent : forwards result.2 = []

theorem loopTop_unsending (performed : broker.outbox = []) : Unsending broker.loopTop := by
  unfold Broker.loopTop
  split
  · exact ⟨by simp [performed, unsent], rfl⟩
  · split
    · split
      · exact ⟨by simp [Broker.fault, performed, unsent], rfl⟩
      · refine ⟨by simp [Broker.emit, performed, unsent, List.filterMap_map],
          List.filterMap_eq_nil_iff.mpr (fun event member => ?_)⟩
        obtain ⟨pair, _, rfl⟩ := List.mem_map.mp member
        rfl
    · exact ⟨by simp [performed, unsent], rfl⟩

theorem runTimers_unsending (performed : broker.outbox = []) (now : UInt64) :
    Unsending (broker.runTimers cfg now) :=
  ⟨by simp [Broker.runTimers, Broker.emit, performed, unsent, List.filterMap_map],
    by simp [Broker.runTimers, forwards, List.filterMap_map]⟩

theorem afterPoll_unsending (performed : broker.outbox = []) (outcome : PollOutcome) :
    Unsending (broker.afterPoll outcome) := by
  cases outcome <;> exact ⟨by simp [Broker.afterPoll, Broker.fault, performed, unsent], rfl⟩

theorem handleSocket_unsending (performed : broker.outbox = []) (info : ConnectionInfo)
    (frames : List Frame) : Unsending (broker.handleSocket cfg info frames) := by
  unfold Broker.handleSocket
  split
  · exact ⟨by simp [Broker.emit, performed, unsent], rfl⟩
  · exact ⟨by simp [performed, unsent], rfl⟩

theorem receive_unsending (performed : broker.outbox = []) (callback : SocketCallback)
    (frames : List Frame) : Unsending (broker.receive cfg callback frames) := by
  have nothing : unsent broker.outbox = [] := by simp [performed, unsent]
  cases callback with
  | frontend => exact ⟨nothing, rfl⟩
  | dealer index =>
    simp only [Broker.receive, Broker.handleDealerSocket]
    split
    · exact ⟨nothing, rfl⟩
    · split
      · exact ⟨nothing, rfl⟩
      · exact handleSocket_unsending cfg broker performed _ _
  | router index =>
    simp only [Broker.receive, Broker.handleRouterSocket]
    split
    · exact ⟨nothing, rfl⟩
    · split
      · exact ⟨nothing, rfl⟩
      · split
        · exact handleSocket_unsending cfg broker performed _ _
        · exact ⟨nothing, rfl⟩

theorem handleCommand_unsent (performed : broker.outbox = []) (oracle : Oracle) (sender : Thread)
    (cmd : Command) :
    forwards (broker.handleCommand cfg oracle sender cmd).2 = [] ∧
      ((broker.handleCommand cfg oracle sender cmd).1.phase ≠ .faulted →
        unsent (broker.handleCommand cfg oracle sender cmd).1.outbox = (outgoingOf cmd).toList) := by
  have nothing : unsent broker.outbox = [] := by simp [performed, unsent]
  cases cmd with
  | quit => exact ⟨rfl, fun _ => nothing⟩
  | connect endpoint =>
    simp only [Broker.handleCommand, Broker.handleConnectCommand]
    split
    · exact ⟨rfl, fun _ => by simp [Broker.emit, performed, unsent, outgoingOf]⟩
    · exact ⟨rfl, fun live => absurd rfl live⟩
  | bind endpoint =>
    simp only [Broker.handleCommand, Broker.handleBindCommand]
    split
    · exact ⟨rfl, fun _ => by simp [Broker.emit, performed, unsent, outgoingOf]⟩
    · exact ⟨rfl, fun live => absurd rfl live⟩
  | unbind endpoint =>
    simp only [Broker.handleCommand, Broker.handleUnbindCommand]
    split <;> exact ⟨rfl, fun _ => nothing⟩
  | request info ctrl data =>
    obtain ⟨closures, same⟩ := sendRequest_timers cfg broker oracle info ctrl data
    simp only [Broker.handleCommand, same]
    split
    · exact ⟨rfl, fun live => absurd rfl live⟩
    · exact ⟨rfl, fun _ => by simp [Broker.emit, performed, unsent, outgoingOf]⟩
  | reply info data =>
    simp only [Broker.handleCommand, Broker.forwardTo]
    split
    · exact ⟨rfl, fun live => absurd rfl live⟩
    · exact ⟨rfl, fun _ => by simp [Broker.emit, performed, unsent, outgoingOf]⟩
  | runClosure closure =>
    exact ⟨rfl, fun _ => by simp [Broker.handleCommand, Broker.emit, performed, unsent, outgoingOf]⟩
  | registerSvc info name svc =>
    exact ⟨rfl, fun _ => by simp [Broker.handleCommand, Broker.emit, performed, unsent, outgoingOf]⟩

end Handlers

/-! ## What the broker reads from a socket -/

/-- The connection a message arrives on, and the message without the identity
that a router socket puts in front of it. -/
def envelopeOf : SocketCallback → List Frame → Option (ConnectionInfo × List Frame)
  | .frontend, _ => none
  | .dealer index, frames => some (.dealer index, frames)
  | .router index, frames => some (.router index (frames.headD []), frames.tail)

def messageRead (process : Process) : Action → Option (ConnectionInfo × List Frame)
  | .dispatch (.message frames) =>
    match process.broker.phase with
    | .dispatch i =>
      match process.broker.reactor.slot i with
      | .ready callback => envelopeOf callback frames
      | _ => none
    | _ => none
  | _ => none

/-- What a message leaves the process as: a router socket takes the identity off. -/
def onWire (info : ConnectionInfo) (frames : List Frame) : List Frame :=
  if info.isRouter then frames.tail else frames

@[simp] theorem onWire_wireFrames (info : ConnectionInfo) (data : List Frame) :
    onWire info (Broker.wireFrames info data) = [] :: data := by
  unfold onWire Broker.wireFrames
  split <;> rfl

def contentOf : List Frame → Option (Bytes × Bytes)
  | [] :: header :: rest => some (header, rest.headD [])
  | _ => none

@[simp] theorem received_append (info : ConnectionInfo) (first second : List Event) :
    received info (first ++ second) = received info first ++ received info second :=
  List.filterMap_append ..

theorem received_none {info : ConnectionInfo} {events : List Event}
    (silent : ∀ header payload, .arrived info header payload ∉ events) : received info events = [] := by
  apply List.filterMap_eq_nil_iff.mpr
  intro event member
  cases event with
  | arrived target header payload =>
    have other : target ≠ info := by
      rintro rfl
      exact silent header payload member
    exact if_neg other
  | _ => rfl

theorem mem_received {info : ConnectionInfo} {header payload : Bytes} {events : List Event} :
    (header, payload) ∈ received info events ↔ .arrived info header payload ∈ events := by
  constructor
  · intro listed
    obtain ⟨event, member, shown⟩ := List.mem_filterMap.mp listed
    cases event with
    | arrived target header' payload' =>
      simp only [Option.ite_none_right_eq_some, Option.some.injEq, Prod.mk.injEq] at shown
      obtain ⟨rfl, rfl, rfl⟩ := shown
      exact member
    | _ => cases shown
  · exact fun member => List.mem_filterMap.mpr ⟨_, member, if_pos rfl⟩

theorem handleSocket_received (cfg : Config) (broker : Broker) (target info : ConnectionInfo)
    (body : List Frame) : received info (broker.handleSocket cfg target body).2 =
      (if target = info then contentOf body else none).toList := by
  unfold Broker.handleSocket
  split
  · by_cases here : target = info <;> simp [received, contentOf, here]
  · next other =>
    have nothing : contentOf body = none := by
      unfold contentOf
      split
      · next header rest => exact absurd rfl (other header rest)
      · rfl
    simp [nothing, received]

theorem receive_handleSocket {broker : Broker} (sound : Sound (ownership broker)) (cfg : Config)
    {i : Nat} {callback : SocketCallback} (slot : broker.reactor.slot i = .ready callback)
    {frames body : List Frame} (nonempty : frames ≠ []) {info : ConnectionInfo}
    (envelope : envelopeOf callback frames = some (info, body)) :
    broker.receive cfg callback frames = broker.handleSocket cfg info body := by
  obtain ⟨socket, member⟩ := slot_ready slot
  have live := sound.not_closed member
  cases callback with
  | frontend => cases envelope
  | dealer index =>
    cases envelope
    have found : broker.socketOf (.dealer index) = some socket :=
      sound.socketOf.mpr (List.mem_append_left _ member)
    simp [Broker.receive, found, live, Broker.handleDealerSocket]
  | router index =>
    cases envelope
    have found : broker.socketOf (.router index []) = some socket :=
      sound.socketOf.mpr (List.mem_append_left _ member)
    obtain ⟨sender, rest, rfl⟩ := List.exists_cons_of_ne_nil nonempty
    cases rest <;> simp [Broker.receive, found, live, Broker.handleRouterSocket, Broker.handleSocket]

theorem received_step {cfg : Config} {process after : Process} {emitted : List Event}
    (sound : process.broker.phase ≠ .faulted → Sound (ownership process.broker)) {action : Action}
    (move : Move cfg process action after emitted) (info : ConnectionInfo) :
    received info emitted = ((messageRead process action).bind fun message =>
      if message.1 = info then contentOf message.2 else none).toList := by
  have silent : (∀ frames, action ≠ .dispatch (.message frames)) → received info emitted = [] := by
    intro other
    apply received_none
    intro header payload member
    obtain ⟨_, frames, same⟩ := arrived_move move member
    exact other frames same
  cases move with
  | message i callback frames phase performed slot network nonempty result same =>
    subst same
    have books : Sound (ownership { process.broker with phase := .dispatch (i + 1) }) :=
      sound (by simp [phase])
    have queued : received info (queuedEvents
        ({ process.broker with phase := .dispatch (i + 1) }.receive cfg callback frames).1.outbox) = [] := by
      apply received_none
      intro header payload member
      simpa [origin] using queuedEvents_origin _ member
    have envelope : ∃ message, envelopeOf callback frames = some message := by
      cases callback with
      | frontend => exact absurd rfl network
      | dealer | router => exact ⟨_, rfl⟩
    obtain ⟨message, envelope⟩ := envelope
    rw [received_append, queued, List.append_nil,
      receive_handleSocket books cfg (i := i) slot nonempty envelope, handleSocket_received]
    simp [messageRead, phase, slot, envelope]
  | finished input i phase performed slot | quiet input i phase performed slot
  | outOfRange input i phase performed slot =>
    cases input <;> simp [messageRead, phase, slot, received]
  | thread | loopTop | timers | poll | command | flush | worker | release | joinBroker
  | joinWorkers => exact silent (by simp)

/-! ## Whole runs -/

variable {cfg : Config} {process after : Process} {events emitted : List Event}
  {allowed : Process → Action → Prop}

/-- What a step sends is what waited or what it read; a step that stops the
broker sends nothing. -/
structure Sending (process after : Process) (emitted : List Event) : Prop where
  live : after.broker.phase ≠ .faulted → process.broker.phase ≠ .faulted
  whole : after.broker.phase ≠ .faulted →
    forwards emitted ++ unsent after.broker.outbox = unsent process.broker.outbox ++ asked emitted
  stopped : after.broker.phase = .faulted → forwards emitted = []

theorem Sending.quiet (phase : after.broker.phase = process.broker.phase)
    (outbox : after.broker.outbox = process.broker.outbox)
    (elsewhere : ∀ event ∈ emitted, origin event ≠ .broker ∧ origin event ≠ .handled) :
    Sending process after emitted where
  live := by
    rw [phase]
    exact id
  whole _ := by
    rw [outbox, forwards_other fun event member => (elsewhere event member).1,
      asked_other fun event member => (elsewhere event member).2, List.nil_append, List.append_nil]
  stopped _ := forwards_other fun event member => (elsewhere event member).1

theorem Sending.handler {result : Broker × List Event} (performed : process.broker.outbox = [])
    (live : process.broker.phase ≠ .faulted) (unsending : Unsending result)
    (silent : ∀ event ∈ result.2, origin event = .broker) :
    Sending process { process with broker := result.1 }
      (result.2 ++ queuedEvents result.1.outbox) where
  live _ := live
  whole _ := by
    have unread : asked (result.2 ++ queuedEvents result.1.outbox) = [] :=
      asked_other fun event member => by
        rcases List.mem_append.mp member with left | right
        · rw [silent event left]
          decide
        · rw [queuedEvents_origin event right]
          decide
    rw [unread, forwards_append, unsending.silent, forwards_queued, unsending.unsent, performed]
    rfl
  stopped _ := by
    rw [forwards_append, unsending.silent, forwards_queued]
    rfl

theorem sending_of_move {action : Action} (move : Move cfg process action after emitted) :
    Sending process after emitted := by
  cases move with
  | thread thread action after emitted running move =>
    obtain ⟨broker, -, -, -, silent⟩ := threadMove_frame move
    refine .quiet (by rw [broker]) (by rw [broker]) (fun event member => ?_)
    rw [silent event member]
    decide
  | loopTop phase performed =>
    exact .handler performed (by simp [phase]) (loopTop_unsending _ performed) (loopTop_origin _)
  | timers now phase performed =>
    exact .handler performed (by simp [phase]) (runTimers_unsending cfg _ performed now)
      (runTimers_origin _ _ _)
  | poll outcome phase performed =>
    exact .handler performed (by simp [phase]) (afterPoll_unsending _ performed outcome)
      (afterPoll_origin _ _)
  | finished input i phase performed | quiet input i phase performed =>
    exact ⟨fun _ => by simp [phase], fun _ => by simp [performed, unsent, forwards, asked],
      fun _ => rfl⟩
  | outOfRange input i phase performed =>
    exact ⟨fun _ => by simp [phase], fun live => absurd rfl live, fun _ => rfl⟩
  | command i sender oracle cmd rest phase performed slot unread result same =>
    have sends := handleCommand_unsent cfg { process.broker with phase := .dispatch (i + 1) }
      performed oracle sender cmd
    rw [same] at sends
    have first : forwards [Event.handled sender cmd] = [] := rfl
    have nothing : forwards (.handled sender cmd :: (result.2 ++ queuedEvents result.1.outbox)) = [] := by
      rw [← List.singleton_append, forwards_append, forwards_append, first, sends.1, forwards_queued]
      rfl
    refine ⟨fun _ => by simp [phase], fun live => ?_, fun _ => nothing⟩
    have silent : ∀ event ∈ result.2, origin event = .broker :=
      same ▸ handleCommand_origin _ _ _ _ _
    have later : asked (result.2 ++ queuedEvents result.1.outbox) = [] :=
      asked_other fun event member => by
        rcases List.mem_append.mp member with left | right
        · rw [silent event left]
          decide
        · rw [queuedEvents_origin event right]
          decide
    rw [nothing, List.nil_append, sends.2 live, performed, ← List.singleton_append, asked_append, later]
    cases message : outgoingOf cmd <;> simp [asked, unsent, message]
  | message i callback frames phase performed slot network nonempty result same =>
    have unsending := receive_unsending cfg { process.broker with phase := .dispatch (i + 1) }
      performed callback frames
    rw [same] at unsending
    exact .handler performed (by simp [phase]) unsending (same ▸ receive_origin _ _ _ _)
  | flush output rest live unperformed =>
    cases output with
    | push index cmd =>
      exact ⟨fun _ => live, fun _ => by
        simp [Process.perform, Process.setOutbox, unperformed, unsent, forwards, asked], fun _ => rfl⟩
    | reply receiver body =>
      exact ⟨fun _ => live, fun _ => by
        simp [Process.perform, Process.setOutbox, unperformed, unsent, forwards, asked], fun _ => rfl⟩
    | send info socket frames cause =>
      refine ⟨fun _ => live, fun running => ?_, fun stopped => ?_⟩
      · simp only [Process.perform] at running ⊢
        split at running
        · exact absurd rfl running
        · next opened =>
          rw [if_neg opened]
          simp [Process.setOutbox, unperformed, unsent, forwards, asked]
      · simp only [Process.perform] at stopped ⊢
        split at stopped
        · next closed =>
          rw [if_pos closed]
          rfl
        · exact absurd stopped live
  | worker index cmd rest legal running idle unread result same =>
    refine .quiet rfl rfl (fun event member => ?_)
    rcases List.mem_cons.mp member with rfl | later
    · simp [origin]
    · rw [← same] at later
      rw [exec_origin _ _ _ _ _ _ _ later]
      decide
  | release => exact .quiet rfl rfl (by simp [origin])
  | joinBroker | joinWorkers => exact .quiet rfl rfl (by simp [origin])

section Run
variable (run : Run (machine cfg) allowed events process)
include run

theorem forwards_of_run :
    forwards events <+: asked events ∧
      (process.broker.phase ≠ .faulted →
        asked events = forwards events ++ unsent process.broker.outbox) := by
  refine Steps.invariant (fun events process => forwards events <+: asked events ∧
    (process.broker.phase ≠ .faulted →
      asked events = forwards events ++ unsent process.broker.outbox)) ?_ ?_ run
  · exact ⟨List.prefix_rfl, fun _ => rfl⟩
  · intro events process action emitted after _ known _ fired
    have sending := sending_of_move (step_move fired)
    by_cases stopped : after.broker.phase = .faulted
    · refine ⟨?_, fun live => absurd stopped live⟩
      rw [forwards_append, asked_append, sending.stopped stopped, List.append_nil]
      exact known.1.trans (List.prefix_append _ _)
    · have whole : asked (events ++ emitted) =
          forwards (events ++ emitted) ++ unsent after.broker.outbox := by
        calc asked (events ++ emitted)
            = forwards events ++ (unsent process.broker.outbox ++ asked emitted) := by
              rw [asked_append, known.2 (sending.live stopped), List.append_assoc]
          _ = forwards events ++ (forwards emitted ++ unsent after.broker.outbox) := by
              rw [sending.whole stopped]
          _ = forwards (events ++ emitted) ++ unsent after.broker.outbox := by
              rw [forwards_append, List.append_assoc]
      exact ⟨⟨_, whole.symm⟩, fun _ => whole⟩

theorem forwarded_read {info : ConnectionInfo} {frames : List Frame} {cause : Option Controller}
    (forwarded : .forwarded info frames cause ∈ events) :
    ∃ sender cmd, .handled sender cmd ∈ events ∧ outgoingOf cmd = some ⟨info, frames, cause⟩ := by
  have sent : Outgoing.mk info frames cause ∈ forwards events := mem_forwards.mpr forwarded
  have listed := (forwards_of_run run).1.subset sent
  obtain ⟨event, member, shown⟩ := List.mem_filterMap.mp listed
  cases event with
  | handled sender cmd => exact ⟨sender, cmd, member, shown⟩
  | _ => cases shown

end Run

end Rpcz.Forwarding
