import Rpcz.BrokerFaults
import Rpcz.HeaderCodec

/-!
When a legal index denotes a live socket. `process_del_sockets` deletes a
router socket and leaves its entry in `router_sockets_`, so the legality checks
keep accepting the index; until the first deletion they are exact.
-/

namespace Rpcz.SocketUse
open Automaton Message EventLog ReactorLoop WorkerThread BrokerThread ProcessModel Moves History
  SocketDeletion BrokerSockets BrokerFaults HeaderCodec

/-- The index of the connection denotes a socket the reactor owns. -/
def Live (broker : Broker) (info : ConnectionInfo) : Prop :=
  ∃ pair ∈ broker.reactor.sockets, broker.socketOf info = some pair.1

/-- Every index that the checks accept denotes a socket the reactor owns. -/
def LegalLive (broker : Broker) : Prop :=
  ∀ info, broker.isConnectionInfoLegal info = true → Live broker info

def KeepsSockets (process : Process) (action : Action) : Prop :=
  action = .loopTop →
    process.broker.reactor.shouldQuit = true ∨ process.broker.reactor.delSockets = []

def forwardTarget (process : Process) (action : Action) : Option ConnectionInfo :=
  (readCommand process action).bind (fun read => forwardedTo read.2)

def ForwardsLive (process : Process) (action : Action) : Prop :=
  ∀ info ∈ forwardTarget process action,
    process.broker.isConnectionInfoLegal info = true → Live process.broker info

instance (process : Process) (action : Action) : Decidable (KeepsSockets process action) :=
  inferInstanceAs (Decidable (_ → _ ∨ _))

instance (broker : Broker) (info : ConnectionInfo) : Decidable (Live broker info) :=
  inferInstanceAs (Decidable (∃ pair ∈ _, _))

instance (process : Process) (action : Action) : Decidable (ForwardsLive process action) :=
  inferInstanceAs (Decidable (∀ info ∈ _, _))

def closedIn (events : List Event) : List Nat :=
  events.filterMap fun
    | .socketClosed socket => some socket
    | _ => none

theorem closedIn_append (first second : List Event) :
    closedIn (first ++ second) = closedIn first ++ closedIn second :=
  List.filterMap_append ..

theorem closedIn_other {events : List Event} (elsewhere : ∀ socket, .socketClosed socket ∉ events) :
    closedIn events = [] := by
  refine List.filterMap_eq_nil_iff.mpr (fun event member => ?_)
  cases event with
  | socketClosed socket => exact absurd member (elsewhere socket)
  | _ => rfl

theorem closedIn_removed (removed : List (Nat × SocketCallback)) :
    closedIn (removed.map (fun pair => .socketClosed pair.1)) = removed.map Prod.fst := by
  induction removed with
  | nil => rfl
  | cons pair rest ih => simp [closedIn]

theorem mem_closedIn {socket : Nat} {events : List Event} :
    socket ∈ closedIn events ↔ .socketClosed socket ∈ events := by
  constructor
  · intro member
    obtain ⟨event, inside, shown⟩ := List.mem_filterMap.mp member
    cases event with
    | socketClosed other =>
      simp only [Option.some.injEq] at shown
      exact shown ▸ inside
    | _ => cases shown
  · exact fun member => List.mem_filterMap.mpr ⟨_, member, rfl⟩

variable {cfg : Config} {process after : Process} {events emitted : List Event}
  {allowed : Process → Action → Prop}

/-- Only the loop head deletes sockets, those it found marked, and it starts and
ends with no message to send. -/
theorem closed_step (sound : process.broker.phase ≠ .faulted → Sound (ownership process.broker))
    {action : Action} (move : Move cfg process action after emitted) :
    after.broker.reactor.closed = process.broker.reactor.closed ∧ closedIn emitted = [] ∨
    action = .loopTop ∧ process.broker.outbox = [] ∧ process.broker.reactor.shouldQuit = false ∧
      (∃ ran : List Thread, after.broker.outbox = ran.map (fun sender => .reply sender .unbound)) ∧
      ∃ removed, after.broker.reactor.closed = process.broker.reactor.closed ++ removed ∧
        closedIn emitted = removed.map Prod.fst ∧
        ∀ pair ∈ removed, pair.1 ∈ process.broker.reactor.delSockets.map Prod.fst := by
  have quiet : ∀ outbox, ∀ socket, .socketClosed socket ∉ queuedEvents outbox := by
    intro outbox socket member
    simpa [origin] using queuedEvents_origin _ member
  cases move with
  | thread thread action after emitted running move =>
    have frame := threadMove_frame move
    refine .inl ⟨by rw [frame.1], closedIn_other (fun socket member => ?_)⟩
    simpa [origin] using frame.2.2.2.2 _ member
  | loopTop phase performed =>
    rcases (sound (by simp [phase])).loopTop_cases with
      ⟨same, _⟩ | ⟨same, _⟩ | ⟨go, rebuilt, removed, ran, spec, same⟩
    · rw [same]
      exact .inl ⟨rfl, closedIn_other (by simpa using quiet _)⟩
    · rw [same]
      exact .inl ⟨rfl, closedIn_other (by simpa using quiet _)⟩
    · rw [same]
      refine .inr ⟨rfl, performed, go, ⟨ran, by simp [Broker.emit, performed]⟩, removed,
        spec.closed, ?_, spec.marked⟩
      rw [closedIn_append, closedIn_removed, closedIn_other (quiet _), List.append_nil]
  | timers now phase performed =>
    refine .inl ⟨rfl, closedIn_other (fun socket member => ?_)⟩
    rcases List.mem_append.mp member with left | right
    · simp [Broker.runTimers] at left
    · exact quiet _ socket right
  | poll outcome phase performed =>
    cases outcome <;>
      exact .inl ⟨rfl, closedIn_other (by
        simp [Broker.afterPoll, Broker.fault, performed, queuedEvents])⟩
  | finished | quiet | outOfRange | release | joinWorkers =>
    exact .inl ⟨rfl, closedIn_other (by simp)⟩
  | joinBroker => exact .inl ⟨rfl, closedIn_other (by simp)⟩
  | command i sender oracle cmd rest phase performed slot unread result same =>
    subst same
    refine .inl ⟨?_, closedIn_other (fun socket member => ?_)⟩
    · cases cmd with
      | quit | runClosure | registerSvc => rfl
      | connect endpoint =>
        simp only [Broker.handleCommand, Broker.handleConnectCommand]
        split <;> rfl
      | bind endpoint =>
        simp only [Broker.handleCommand, Broker.handleBindCommand]
        split <;> rfl
      | unbind endpoint =>
        simp only [Broker.handleCommand, Broker.handleUnbindCommand]
        split <;> rfl
      | reply info data =>
        simp only [Broker.handleCommand, Broker.forwardTo]
        split <;> rfl
      | request info ctrl data =>
        obtain ⟨closures, same⟩ := sendRequest_timers cfg
          { process.broker with phase := .dispatch (i + 1) } oracle info ctrl data
        simp only [Broker.handleCommand, same]
        split <;> rfl
    · rcases List.mem_cons.mp member with first | later
      · cases first
      · rcases List.mem_append.mp later with left | right
        · cases cmd <;>
            simp only [Broker.handleCommand, Broker.handleConnectCommand, Broker.handleBindCommand,
              Broker.handleUnbindCommand, Broker.sendRequest, Broker.forwardTo, Broker.fault] at left
          all_goals try split at left
          all_goals simp at left
        · exact quiet _ socket right
  | message i callback frames phase performed slot network nonempty result same =>
    subst same
    have kept := congrArg Ownership.closed (receive_ownership cfg
      { process.broker with phase := .dispatch (i + 1) } callback frames)
    have books : Sound (ownership { process.broker with phase := .dispatch (i + 1) }) :=
      sound (by simp [phase])
    refine .inl ⟨kept, closedIn_other (fun socket member => ?_)⟩
    rcases List.mem_append.mp member with left | right
    · rcases books.receive_cases cfg frames slot network with ⟨info, data, same⟩ | same
      · rw [same] at left
        unfold Broker.handleSocket at left
        split at left <;> simp at left
      · simp [same] at left
    · exact quiet _ socket right
  | flush output rest live unperformed =>
    refine .inl ⟨?_, closedIn_other (fun socket member => ?_)⟩
    · rcases perform_broker (process.setOutbox rest) output with same | same <;>
        rw [same] <;> rfl
    · cases output with
      | push | reply => simp [Process.perform] at member
      | send info other frames cause =>
        simp only [Process.perform, Broker.fault] at member
        split at member <;> simp at member
  | worker index cmd rest legal running idle unread result same =>
    refine .inl ⟨rfl, closedIn_other (fun socket member => ?_)⟩
    rcases List.mem_cons.mp member with first | later
    · cases first
    · rw [← same] at later
      simpa [origin] using exec_origin _ _ _ _ _ _ _ later

theorem closed_of_run (run : Run (machine cfg) allowed events process) :
    closedIn events = process.broker.reactor.closed.map Prod.fst := by
  refine Steps.invariant
    (fun events process => closedIn events = process.broker.reactor.closed.map Prod.fst) rfl ?_ run
  intro events process action emitted after earlier before _ fired
  rw [closedIn_append, before]
  rcases closed_step (sound_of_run earlier) (step_move fired) with
    ⟨same, silent⟩ | ⟨_, _, _, _, removed, same, shown, _⟩
  · rw [same, silent, List.append_nil]
  · rw [same, shown, List.map_append]

/-- The legality checks are exact as long as no socket was deleted, and from the
first deletion on they accept the index of a deleted socket. -/
theorem legalLive_iff {broker : Broker} (sound : Sound (ownership broker)) :
    LegalLive broker ↔ broker.reactor.closed = [] := by
  constructor
  · intro live
    refine List.eq_nil_iff_forall_not_mem.mpr (fun pair gone => ?_)
    obtain ⟨index, callback⟩ := sound.closedRouter pair gone
    have named : broker.socketOf (.router index []) = some pair.1 := by
      refine sound.socketOf.mpr (List.mem_append_right _ ?_)
      change (pair.1, SocketCallback.router index) ∈ broker.reactor.closed
      rw [← callback]
      exact gone
    obtain ⟨owned, member, same⟩ := live (.router index [])
      ((sound.legal _).mpr ⟨pair.1, named⟩)
    have closed := sound.not_closed member
    rw [named, Option.some.injEq] at same
    rw [← same] at closed
    simpa using List.any_eq_false.mp closed pair gone
  · intro none_closed info legal
    obtain ⟨socket, found⟩ := (sound.legal info).mp legal
    have member := sound.socketOf.mp found
    rw [none_closed, List.append_nil] at member
    exact ⟨_, member, found⟩

theorem send_origin {action : Action} (move : Move cfg process action after emitted)
    {info : ConnectionInfo} {socket : Nat} {data : List Frame} {cause : Option Controller}
    (member : .send info socket data cause ∈ after.broker.outbox) :
    .send info socket data cause ∈ process.broker.outbox ∨
      ∃ sender cmd, readCommand process action = some (sender, cmd) ∧ forwardedTo cmd = some info ∧
        process.broker.socketOf info = some socket := by
  cases move with
  | thread thread action after emitted running move =>
    rw [(threadMove_frame move).1] at member
    exact .inl member
  | loopTop phase performed =>
    unfold Broker.loopTop at member
    split at member
    · exact .inl member
    · split at member
      · split at member
        · exact .inl member
        · exact .inl (by simpa [Broker.emit] using member)
      · exact .inl member
  | timers now phase performed => exact .inl (by simpa [Broker.runTimers, Broker.emit] using member)
  | poll outcome phase performed => cases outcome <;> exact .inl member
  | finished | quiet | outOfRange | worker | release | joinBroker | joinWorkers => exact .inl member
  | command i sender oracle cmd rest phase performed slot unread result same =>
    subst same
    have read : readCommand process (.dispatch (.frontend sender oracle)) = some (sender, cmd) := by
      simp [readCommand, unread]
    cases cmd with
    | quit => exact .inl member
    | runClosure | registerSvc =>
      exact .inl (by simpa [Broker.handleCommand, Broker.emit] using member)
    | connect endpoint =>
      simp only [Broker.handleCommand, Broker.handleConnectCommand, Broker.emit, Broker.fault] at member
      split at member
      · exact .inl (by simpa using member)
      · exact .inl member
    | bind endpoint =>
      simp only [Broker.handleCommand, Broker.handleBindCommand, Broker.emit, Broker.fault] at member
      split at member
      · exact .inl (by simpa using member)
      · exact .inl member
    | unbind endpoint =>
      simp only [Broker.handleCommand, Broker.handleUnbindCommand] at member
      split at member <;> exact .inl member
    | reply target payload =>
      simp only [Broker.handleCommand, Broker.forwardTo] at member
      split at member
      · exact .inl member
      · next found =>
        rcases List.mem_append.mp member with old | new
        · exact .inl old
        · simp only [List.mem_singleton, Output.send.injEq] at new
          obtain ⟨rfl, rfl, _⟩ := new
          exact .inr ⟨sender, _, read, rfl, found⟩
    | request target ctrl payload =>
      obtain ⟨closures, same⟩ := sendRequest_timers cfg
        { process.broker with phase := .dispatch (i + 1) } oracle target ctrl payload
      simp only [Broker.handleCommand, same] at member
      split at member
      · exact .inl member
      · next found =>
        rcases List.mem_append.mp member with old | new
        · exact .inl old
        · simp only [List.mem_cons, Output.send.injEq, reduceCtorEq, List.not_mem_nil, or_self,
            or_false] at new
          obtain ⟨rfl, rfl, _⟩ := new
          exact .inr ⟨sender, _, read, rfl, found⟩
  | message i callback frames phase performed slot network nonempty result same =>
    subst same
    refine .inl ?_
    have emitted : ∀ broker : Broker, ∀ source read,
        .send info socket data cause ∈ (broker.handleSocket cfg source read).1.outbox →
          .send info socket data cause ∈ broker.outbox := by
      intro broker source read inside
      unfold Broker.handleSocket at inside
      split at inside
      · simpa [Broker.emit] using inside
      · exact inside
    cases callback with
    | frontend => exact absurd rfl network
    | dealer index =>
      simp only [Broker.receive, Broker.handleDealerSocket] at member
      split at member
      · exact member
      · split at member
        · exact member
        · exact emitted { process.broker with phase := .dispatch (i + 1) } _ _ member
    | router index =>
      simp only [Broker.receive, Broker.handleRouterSocket] at member
      split at member
      · exact member
      · split at member
        · exact member
        · split at member
          · exact emitted { process.broker with phase := .dispatch (i + 1) } _ _ member
          · exact member
  | flush output rest live unperformed =>
    rw [perform_outbox] at member
    rw [unperformed]
    exact .inl (List.mem_cons_of_mem _ member)

/-- No message waits to be sent on a deleted socket. -/
def SendsOpen (broker : Broker) : Prop :=
  ∀ info socket frames cause, .send info socket frames cause ∈ broker.outbox →
    broker.isClosed socket = false

theorem sendsOpen_of_run (run : Run (machine cfg) ForwardsLive events process) :
    SendsOpen process.broker := by
  refine Steps.invariant (fun _ process => SendsOpen process.broker) ?_ ?_ run
  · intro info socket frames cause member
    simp [machine, Process.new, Broker.new] at member
  · intro events process action emitted after earlier before permitted fired info socket frames
      cause member
    have sound := sound_of_run earlier
    have move := step_move fired
    rcases closed_step sound move with ⟨same, _⟩ | ⟨_, _, _, ⟨ran, replies⟩, _⟩
    · simp only [Broker.isClosed, same]
      rcases send_origin move member with old | ⟨sender, cmd, read, target, found⟩
      · exact before info socket frames cause old
      · have alive : process.broker.phase ≠ .faulted := by
          intro stopped
          cases move <;> simp_all [readCommand]
        have legal := ((sound alive).legal info).mpr ⟨socket, found⟩
        have asked : info ∈ forwardTarget process action := by
          simp [forwardTarget, read, target]
        obtain ⟨pair, owned, named⟩ := permitted info asked legal
        rw [found, Option.some.injEq] at named
        rw [named]
        exact (sound alive).not_closed owned
    · simp [replies] at member

theorem breaks_deletedSocket {action : Action} {socket : Nat}
    (broken : breaks process action = some (.deletedSocket socket)) :
    ∃ info frames cause, .send info socket frames cause ∈ process.broker.outbox ∧
      process.broker.isClosed socket = true := by
  cases action with
  | flush =>
    simp only [breaks] at broken
    split at broken
    · next info other frames cause rest waiting =>
      split at broken
      · next closed =>
        cases broken
        exact ⟨info, frames, cause, by rw [waiting]; exact List.mem_cons_self, closed⟩
      · cases broken
    · cases broken
  | poll outcome => cases outcome <;> simp [breaks] at broken
  | dispatch input =>
    cases input with
    | frontend sender oracle =>
      simp only [breaks] at broken
      split at broken
      · next cmd rest unread =>
        cases cmd <;> simp only [commandFault] at broken
        all_goals try split at broken
        all_goals cases broken
      · cases broken
    | nothing | message => simp [breaks] at broken
  | thread | loopTop | timers | worker | release | joinBroker | joinWorkers =>
    simp [breaks] at broken

theorem none_closed_of_run (run : Run (machine cfg) KeepsSockets events process) :
    process.broker.reactor.closed = [] := by
  refine Steps.invariant (fun _ process => process.broker.reactor.closed = []) rfl ?_ run
  intro events process action emitted after earlier before permitted fired
  rcases closed_step (sound_of_run earlier) (step_move fired) with
    ⟨same, _⟩ | ⟨head, _, go, _, removed, same, _, marked⟩
  · rw [same, before]
  · rcases permitted head with quit | unmarked
    · rw [quit] at go
      cases go
    · rw [unmarked] at marked
      rw [same, before, List.nil_append]
      exact List.eq_nil_iff_forall_not_mem.mpr (fun pair member => by simpa using marked pair member)

/-- While no marked socket has been deleted, every legal index is live and no
deleted socket is used. Exactly from the first deletion on some legal index is
not live; a use is then a message that was forwarded to such an index, never a
read. -/
theorem sockets_used_alive (cfg : Config) :
    (∀ events process, Run (machine cfg) KeepsSockets events process →
      (process.broker.phase ≠ .faulted → LegalLive process.broker) ∧
        ∀ socket, .faulted (.deletedSocket socket) ∉ events) ∧
    (∀ events process, Run (machine cfg) anyStep events process → process.broker.phase ≠ .faulted →
      (LegalLive process.broker ↔ ∀ socket, .socketClosed socket ∉ events)) ∧
    (∀ events process, Run (machine cfg) ForwardsLive events process →
      ∀ socket, .faulted (.deletedSocket socket) ∉ events) ∧
    ∀ events process, Run (machine cfg) anyStep events process → process.broker.phase ≠ .faulted →
      ∀ i callback frames, process.broker.reactor.slot i = .ready callback → callback ≠ .frontend →
        ∀ socket, .faulted (.deletedSocket socket) ∉
          (process.broker.receive cfg callback frames).2 := by
  refine ⟨fun events process run => ⟨fun alive => ?_, fun socket => ?_⟩,
    fun events process run alive => ?_, fun events process run socket => ?_,
    fun events process run alive i callback frames slot network socket => ?_⟩
  · exact (legalLive_iff (sound_of_run run alive)).mpr (none_closed_of_run run)
  · refine no_fault_of_run run (fun events process action earlier _ broken => ?_)
    obtain ⟨_, _, _, _, closed⟩ := breaks_deletedSocket broken
    simp [Broker.isClosed, none_closed_of_run earlier] at closed
  · rw [legalLive_iff (sound_of_run run alive), ← List.map_eq_nil_iff (f := Prod.fst),
      ← closed_of_run run, List.eq_nil_iff_forall_not_mem]
    exact forall_congr' (fun socket => not_congr mem_closedIn)
  · refine no_fault_of_run run (fun events process action earlier _ broken => ?_)
    obtain ⟨info, frames, cause, member, closed⟩ := breaks_deletedSocket broken
    rw [sendsOpen_of_run earlier info socket frames cause member] at closed
    cases closed
  · exact (receive_silent (sound_of_run run alive) cfg frames slot network).1 _

/-- Every connection a command is forwarded to is one from which a message had
arrived before. -/
def obtained (seen : List ConnectionInfo) : List Event → Bool
  | [] => true
  | .arrived info _ _ :: rest => obtained (info :: seen) rest
  | .handled _ cmd :: rest =>
    (match forwardedTo cmd with
      | none => true
      | some info => info ∈ seen) && obtained seen rest
  | _ :: rest => obtained seen rest

/-- One turn of the loop that reads a command of thread 0, with `count` sockets. -/
def commandTurn (count : Nat) : List Action :=
  [.loopTop, .timers 0, .poll (.ready (true :: List.replicate (count - 1) false)),
    .dispatch (.frontend (.app 0) ⟨true, 0, 0⟩), .flush] ++
    List.replicate count (.dispatch .nothing)

def boundAndAsked : List Action :=
  [.thread (.app 0) (.bind [1] 0)] ++ commandTurn 1 ++
    [.thread (.app 0) .receive, .thread (.app 0) .insertFactories,
      .loopTop, .timers 0, .poll (.ready [false, true]), .dispatch .nothing,
      .dispatch (.message [[7], [], [8], [9]]), .flush, .dispatch .nothing]

def unboundAgain : List Action :=
  boundAndAsked ++ [.thread (.app 0) (.unbind [1]), .loopTop, .timers 0,
    .poll (.ready [true, false]), .dispatch (.frontend (.app 0) ⟨true, 0, 0⟩), .dispatch .nothing,
    .dispatch .nothing, .loopTop, .flush]

def answeredLate : List Action :=
  unboundAgain ++ [.thread (.app 0) .receive,
    .thread (.app 0) (.reply (.router 1 [7]) 1 [5]), .timers 0, .poll (.ready [true]),
    .dispatch (.frontend (.app 0) ⟨true, 0, 0⟩), .flush]

/-- The index of an unbound router stays legal, and a late answer is sent on the
deleted socket. -/
theorem unbound_router_used :
    (¬ ∀ cfg events process, Run (machine cfg) anyStep events process → obtained [] events = true →
      process.broker.phase ≠ .faulted → LegalLive process.broker) ∧
    ¬ ∀ cfg events process, Run (machine cfg) anyStep events process → obtained [] events = true →
      ∀ socket, .faulted (.deletedSocket socket) ∉ events := by
  constructor
  · intro claim
    have ran := run_reached (machine plain) unboundAgain
    have alive : (reached (machine plain) unboundAgain).1.broker.phase ≠ .faulted := by
      decide +kernel
    have live := claim _ _ _ ran (by decide +kernel) alive
    have gone : (reached (machine plain) unboundAgain).1.broker.reactor.closed ≠ [] := by
      decide +kernel
    exact gone ((legalLive_iff (sound_of_run ran alive)).mp live)
  · intro claim
    have ran := run_reached (machine plain) answeredLate
    exact claim _ _ _ ran (by decide +kernel) 1 (by decide +kernel)

/-- The four parts at runs with a bound and with an unbound router. -/
theorem sockets_used_alive_unbound :
    LegalLive (reached ((machine plain).guarded KeepsSockets) boundAndAsked).1.broker ∧
      ¬ LegalLive (reached (machine plain) unboundAgain).1.broker ∧
      .faulted (.deletedSocket 1) ∉
        (reached ((machine plain).guarded ForwardsLive) unboundAgain).2 ∧
      .faulted (.deletedSocket 1) ∉
        ((reached (machine plain) boundAndAsked).1.broker.receive plain (.router 1) [[7], [], [8]]).2 := by
  have parts := sockets_used_alive plain
  have keeps := Steps.of_guarded (run_reached ((machine plain).guarded KeepsSockets) boundAndAsked)
  have forwards := Steps.of_guarded (run_reached ((machine plain).guarded ForwardsLive) unboundAgain)
  refine ⟨(parts.1 _ _ keeps).1 (by decide +kernel), fun live => ?_,
    parts.2.2.1 _ _ forwards 1, ?_⟩
  · exact (parts.2.1 _ _ (run_reached (machine plain) unboundAgain) (by decide +kernel)).mp live 1
      (by decide +kernel)
  · exact parts.2.2.2 _ _ (run_reached (machine plain) boundAndAsked) (by decide +kernel) 1
      (.router 1) _ (by decide +kernel) (by decide) 1

end Rpcz.SocketUse
