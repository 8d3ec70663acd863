import Mathlib.Data.List.Forall2
import Rpcz.BlockingCalls
import Rpcz.HeaderCodec

/-!
Every blocking command is answered once, in order, by its own reply, as long as
an unbind names a bound endpoint; `handle_unbind_command` returns without an
answer for any other, and its sender waits for ever.
-/

namespace Rpcz.BlockingReplies
open Automaton Message EventLog ReactorLoop WorkerThread BrokerThread ProcessModel Moves History
  SocketDeletion BrokerSockets BrokerFaults BlockingCalls HeaderCodec

/-- The router indices of the bound endpoints, as the history tells them. -/
def boundAfter (bound : Bytes → Option Nat) : Event → Bytes → Option Nat
  | .routerCreated _ endpoint index => Function.update bound endpoint (some index)
  | .handled _ (.unbind endpoint) => Function.update bound endpoint none
  | _ => bound

def boundAt (events : List Event) : Bytes → Option Nat :=
  events.foldl boundAfter (fun _ => none)

def unbindBound (bound : Bytes → Option Nat) : Event → Bool
  | .handled _ (.unbind endpoint) => (bound endpoint).isSome
  | _ => true

/-- Every unbind the broker reads names an endpoint that is bound then. -/
def unbindsBound (bound : Bytes → Option Nat) : List Event → Bool
  | [] => true
  | event :: rest => unbindBound bound event && unbindsBound (boundAfter bound event) rest

/-- zmq accepts the endpoints and polls without a fatal error, and no message is
forwarded to an illegal index or to a deleted socket. -/
def Accepted (process : Process) (action : Action) : Prop :=
  breaks process action = none ∧ action ≠ .poll .eterm

instance (process : Process) (action : Action) : Decidable (Accepted process action) :=
  inferInstanceAs (Decidable (_ ∧ _))

/-- The reply is one for the command: a connect gets an index, a bind the index
of the router it created, and an unbind the empty message. -/
def Answers (events : List Event) (thread : Thread) : Command → Reply → Prop
  | .connect _, .socketIndex _ => True
  | .bind endpoint, .socketIndex index => .routerCreated thread endpoint index ∈ events
  | .unbind _, .unbound => True
  | _, _ => False

/-- The last blocking command of the thread was an unbind of the router with this
socket. -/
def UnbindRead (events : List Event) (routers : List (Option Nat)) (thread : Thread)
    (socket : Nat) : Prop :=
  ∃ before endpoint rest index, events = before ++ .handled thread (.unbind endpoint) :: rest ∧
    asked thread rest = [] ∧ boundAt before endpoint = some index ∧
    routers[index]? = some (some socket)

def UnbindDone (events : List Event) (routers : List (Option Nat)) (thread : Thread) : Prop :=
  ∃ before endpoint rest index socket,
    events = before ++ .handled thread (.unbind endpoint) :: rest ∧ asked thread rest = [] ∧
    boundAt before endpoint = some index ∧ routers[index]? = some (some socket) ∧
    .socketClosed socket ∈ rest

/-- What a state and its history say about the blocking commands of all threads. -/
structure BlockingAnswered (events : List Event) (process : Process) : Prop where
  /-- One reply for each command read, sent or owed, in the order of the commands. -/
  answers : ∀ thread, List.Forall₂ (Answers events thread) (asked thread events)
    (sent thread events ++ owed process thread)
  /-- A thread reads its replies in the order in which they were sent. -/
  inOrder : ∀ thread, got thread events ++ process.replies thread = sent thread events
  /-- A thread that waits has exactly one command, deletion or reply under way. -/
  onItsWay : ∀ thread, blocked (process.calls thread) = true →
    ∃ flight, flights process thread = [flight] ∧ Waits (process.calls thread) flight
  nothingElse : ∀ thread, blocked (process.calls thread) = false → flights process thread = []
  /-- What a thread reads answers the last command of its own that was read. -/
  own : ∀ before thread body rest, events = before ++ .received thread body :: rest →
    ∃ earlier cmd, asked thread before = earlier ++ [cmd] ∧
      earlier.length = (got thread before).length ∧ Answers before thread cmd body
  /-- An unbind is answered after its socket was deleted. -/
  afterDeletion : ∀ before thread rest, events = before ++ .replied thread .unbound :: rest →
    UnbindDone before process.broker.routerSockets thread
  /-- While the manager is in use the loop goes on, and its head answers the unbinds. -/
  loopGoesOn : process.shutdown = .running → process.broker.phase ≠ .exited ∧
    process.broker.phase ≠ .faulted ∧
    ∀ socket thread, (socket, thread) ∈ process.broker.reactor.delSockets →
      .reply thread .unbound ∈ process.broker.loopTop.1.outbox

section Projections

theorem boundAt_append (first second : List Event) :
    boundAt (first ++ second) = second.foldl boundAfter (boundAt first) :=
  List.foldl_append ..

theorem unbindsBound_append (bound : Bytes → Option Nat) (first second : List Event) :
    unbindsBound bound (first ++ second) =
      (unbindsBound bound first && unbindsBound (first.foldl boundAfter bound) second) := by
  induction first generalizing bound with
  | nil => simp [unbindsBound]
  | cons event rest ih => simp [unbindsBound, ih, Bool.and_assoc]

def neutral : Event → Bool
  | .routerCreated .. => false
  | .handled .. => false
  | _ => true

theorem boundAfter_neutral {event : Event} (plain : neutral event = true)
    (bound : Bytes → Option Nat) : boundAfter bound event = bound := by
  cases event with
  | handled | routerCreated => cases plain
  | _ => rfl

theorem foldl_neutral {events : List Event} (plain : ∀ event ∈ events, neutral event = true)
    (bound : Bytes → Option Nat) : events.foldl boundAfter bound = bound := by
  induction events with
  | nil => rfl
  | cons event rest ih =>
    rw [List.foldl_cons, boundAfter_neutral (plain event List.mem_cons_self),
      ih (fun other member => plain other (List.mem_cons_of_mem _ member))]

theorem unbindsBound_neutral {events : List Event} (plain : ∀ event ∈ events, neutral event = true)
    (bound : Bytes → Option Nat) : unbindsBound bound events = true := by
  induction events with
  | nil => rfl
  | cons event rest ih =>
    have here := plain event List.mem_cons_self
    rw [unbindsBound, boundAfter_neutral here,
      ih (fun other member => plain other (List.mem_cons_of_mem _ member)), Bool.and_true]
    cases event with
    | handled => cases here
    | _ => rfl

theorem neutral_of_origin {event : Event} (other : origin event ≠ .handled ∧ origin event ≠ .broker) :
    neutral event = true := by
  cases event <;> simp_all [origin, neutral]

end Projections

variable {cfg : Config} {process after : Process} {events emitted : List Event}
  {allowed : Process → Action → Prop}

theorem perform_neutral (process : Process) (output : Output) :
    ∀ event ∈ (process.perform output).2, neutral event = true := by
  cases output with
  | push | reply => simp [Process.perform, neutral]
  | send info socket frames cause =>
    simp only [Process.perform, Broker.fault]
    split <;> simp [neutral]

/-- Only a command changes the tables of the broker or says something about bound
endpoints. -/
theorem tables_step {action : Action} (sound : process.broker.phase ≠ .faulted →
      Sound (ownership process.broker)) (move : Move cfg process action after emitted) :
    (after.broker.bindMap = process.broker.bindMap ∧
      after.broker.routerSockets = process.broker.routerSockets ∧
      ∀ event ∈ emitted, neutral event = true) ∨
    ∃ sender cmd rest, emitted = .handled sender cmd :: rest ∧
      readCommand process action = some (sender, cmd) ∧
      ((∃ endpoint, cmd = .unbind endpoint ∧
          after.broker.bindMap = Function.update process.broker.bindMap endpoint none ∧
          after.broker.routerSockets = process.broker.routerSockets ∧
          ∀ event ∈ rest, neutral event = true) ∨
        (∃ endpoint others, cmd = .bind endpoint ∧
          after.broker.bindMap =
            Function.update process.broker.bindMap endpoint (some process.broker.nextSocket) ∧
          after.broker.routerSockets =
            process.broker.routerSockets ++ [some process.broker.nextSocket] ∧
          rest = .routerCreated sender endpoint process.broker.routerSockets.length :: others ∧
          ∀ event ∈ others, neutral event = true) ∨
        ((∀ endpoint, cmd ≠ .unbind endpoint) ∧ after.broker.bindMap = process.broker.bindMap ∧
          after.broker.routerSockets = process.broker.routerSockets ∧
          ∀ event ∈ rest, neutral event = true)) := by
  have queuedNeutral : ∀ outbox, ∀ event ∈ queuedEvents outbox, neutral event = true :=
    fun outbox event member => neutral_of_origin (by
      rw [queuedEvents_origin event member]; decide)
  cases move with
  | thread thread action after emitted running move =>
    have frame := threadMove_frame move
    rw [frame.1]
    exact .inl ⟨rfl, rfl, fun event member => neutral_of_origin (by
      rw [frame.2.2.2.2 event member]; decide)⟩
  | loopTop phase performed =>
    rcases (sound (by simp [phase])).loopTop_cases with
      ⟨same, _⟩ | ⟨same, _⟩ | ⟨_, rebuilt, removed, ran, _, same⟩
    · rw [same]
      exact .inl ⟨rfl, rfl, by simpa using queuedNeutral _⟩
    · rw [same]
      exact .inl ⟨rfl, rfl, by simpa using queuedNeutral _⟩
    · rw [same]
      refine .inl ⟨rfl, rfl, fun event member => ?_⟩
      rcases List.mem_append.mp member with left | right
      · obtain ⟨pair, _, rfl⟩ := List.mem_map.mp left
        rfl
      · exact queuedNeutral _ event right
  | timers now phase performed =>
    refine .inl ⟨rfl, rfl, fun event member => ?_⟩
    rcases List.mem_append.mp member with left | right
    · obtain ⟨closure, _, rfl⟩ := List.mem_map.mp left
      rfl
    · exact queuedNeutral _ event right
  | poll outcome phase performed =>
    cases outcome <;>
      simp [Broker.afterPoll, Broker.fault, performed, queuedEvents, neutral]
  | finished | quiet | outOfRange | release | joinWorkers => simp [neutral, Process.write]
  | joinBroker => simp [neutral]
  | command i sender oracle cmd rest phase performed slot unread result same =>
    subst same
    refine .inr ⟨sender, cmd, _, rfl, by simp [readCommand, unread], ?_⟩
    cases cmd with
    | unbind endpoint =>
      refine .inl ⟨endpoint, rfl, ?_⟩
      simp only [Broker.handleCommand, Broker.handleUnbindCommand]
      split
      · next missing =>
        refine ⟨?_, rfl, by simpa using queuedNeutral _⟩
        rw [← missing, Function.update_eq_self]
      · exact ⟨rfl, rfl, by simpa using queuedNeutral _⟩
    | bind endpoint =>
      simp only [Broker.handleCommand, Broker.handleBindCommand]
      split
      · exact .inr (.inl ⟨endpoint, _, rfl, rfl, rfl, rfl, queuedNeutral _⟩)
      · refine .inr (.inr ⟨by simp, rfl, rfl, fun event member => ?_⟩)
        rcases List.mem_append.mp member with left | right
        · rw [List.mem_singleton.mp left]
          rfl
        · exact queuedNeutral _ event right
    | connect endpoint =>
      refine .inr (.inr ⟨by simp, ?_⟩)
      simp only [Broker.handleCommand, Broker.handleConnectCommand]
      split
      · exact ⟨rfl, rfl, by simpa using queuedNeutral _⟩
      · refine ⟨rfl, rfl, fun event member => ?_⟩
        rcases List.mem_append.mp member with left | right
        · rw [List.mem_singleton.mp left]
          rfl
        · exact queuedNeutral _ event right
    | quit | runClosure | registerSvc =>
      exact .inr (.inr ⟨by simp, rfl, rfl, by simpa [Broker.handleCommand] using queuedNeutral _⟩)
    | request info ctrl data =>
      obtain ⟨closures, same⟩ := sendRequest_timers cfg
        { process.broker with phase := .dispatch (i + 1) } oracle info ctrl data
      refine .inr (.inr ⟨by simp, ?_⟩)
      simp only [Broker.handleCommand, same]
      split
      · refine ⟨rfl, rfl, fun event member => ?_⟩
        rcases List.mem_append.mp member with left | right
        · rw [List.mem_singleton.mp left]
          rfl
        · exact queuedNeutral _ event right
      · exact ⟨rfl, rfl, by simpa using queuedNeutral _⟩
    | reply info data =>
      refine .inr (.inr ⟨by simp, ?_⟩)
      simp only [Broker.handleCommand, Broker.forwardTo]
      split
      · refine ⟨rfl, rfl, fun event member => ?_⟩
        rcases List.mem_append.mp member with left | right
        · rw [List.mem_singleton.mp left]
          rfl
        · exact queuedNeutral _ event right
      · exact ⟨rfl, rfl, by simpa using queuedNeutral _⟩
  | message i callback frames phase performed slot network nonempty result same =>
    subst same
    have books : Sound (ownership { process.broker with phase := .dispatch (i + 1) }) :=
      sound (by simp [phase])
    have cases := books.receive_cases cfg frames slot network
    have kept := receive_ownership cfg { process.broker with phase := .dispatch (i + 1) } callback
      frames
    refine .inl ⟨congrArg Ownership.bindMap kept, congrArg Ownership.routers kept,
      fun event member => ?_⟩
    rcases List.mem_append.mp member with left | right
    · rcases cases with ⟨info, data, same⟩ | same
      · rw [same] at left
        unfold Broker.handleSocket at left
        split at left
        · rw [List.mem_singleton.mp left]
          rfl
        · simp at left
      · simp [same] at left
    · exact queuedNeutral _ event right
  | flush output rest live unperformed =>
    rcases perform_broker (process.setOutbox rest) output with same | same
    · exact .inl ⟨by rw [same]; rfl, by rw [same]; rfl, perform_neutral _ output⟩
    · exact .inl ⟨by rw [same]; rfl, by rw [same]; rfl, perform_neutral _ output⟩
  | worker index cmd rest legal running idle unread result same =>
    refine .inl ⟨rfl, rfl, fun event member => neutral_of_origin ?_⟩
    rcases List.mem_cons.mp member with rfl | later
    · exact ⟨by simp [origin], by simp [origin]⟩
    · rw [← same] at later
      rw [exec_origin _ _ _ _ _ _ event later]
      decide

/-! What the history and the tables say about an endpoint is the same. -/

structure Directory (bound : Bytes → Option Nat) (broker : Broker) : Prop where
  unbound : ∀ endpoint, bound endpoint = none → broker.bindMap endpoint = none
  bound : ∀ endpoint index, bound endpoint = some index →
    ∃ socket, broker.bindMap endpoint = some socket ∧
      broker.routerSockets[index]? = some (some socket)

theorem Directory.unbind {bound : Bytes → Option Nat} {broker changed : Broker}
    (before : Directory bound broker) (endpoint : Bytes)
    (bindMap : changed.bindMap = Function.update broker.bindMap endpoint none)
    (routers : changed.routerSockets = broker.routerSockets) :
    Directory (Function.update bound endpoint none) changed where
  unbound := by
    intro name
    rw [bindMap]
    by_cases here : name = endpoint
    · simp [here]
    · simpa [Function.update_of_ne here] using before.unbound name
  bound := by
    intro name index
    rw [bindMap, routers]
    by_cases here : name = endpoint
    · simp [here]
    · simpa [Function.update_of_ne here] using before.bound name index

theorem Directory.bind {bound : Bytes → Option Nat} {broker changed : Broker}
    (before : Directory bound broker) (endpoint : Bytes) (socket : Nat)
    (bindMap : changed.bindMap = Function.update broker.bindMap endpoint (some socket))
    (routers : changed.routerSockets = broker.routerSockets ++ [some socket]) :
    Directory (Function.update bound endpoint (some broker.routerSockets.length)) changed where
  unbound := by
    intro name
    rw [bindMap]
    by_cases here : name = endpoint
    · simp [here]
    · simpa [Function.update_of_ne here] using before.unbound name
  bound := by
    intro name index
    rw [bindMap, routers]
    by_cases here : name = endpoint
    · subst here
      simp only [Function.update_self, Option.some.injEq]
      rintro rfl
      exact ⟨socket, rfl, List.getElem?_concat_length⟩
    · simp only [Function.update_of_ne here]
      intro found
      obtain ⟨other, named, listed⟩ := before.bound name index found
      refine ⟨other, named, ?_⟩
      rw [List.getElem?_append_left (List.getElem?_eq_some_iff.mp listed).1, listed]

theorem directory_of_run (run : Run (machine cfg) allowed events process) :
    Directory (boundAt events) process.broker := by
  refine Steps.invariant (fun events process => Directory (boundAt events) process.broker) ?_ ?_ run
  · exact ⟨fun _ _ => rfl, fun endpoint index found => by cases found⟩
  · intro events process action emitted after earlier before _ fired
    rw [boundAt_append]
    rcases tables_step (sound_of_run earlier) (step_move fired) with
      ⟨bindMap, routers, plain⟩ | ⟨sender, cmd, rest, rfl, _, changed⟩
    · rw [foldl_neutral plain]
      exact ⟨by rw [bindMap]; exact before.unbound, by rw [bindMap, routers]; exact before.bound⟩
    · rw [List.foldl_cons]
      rcases changed with ⟨endpoint, rfl, bindMap, routers, plain⟩ |
        ⟨endpoint, others, rfl, bindMap, routers, rfl, plain⟩ | ⟨other, bindMap, routers, plain⟩
      · rw [foldl_neutral plain]
        exact before.unbind endpoint bindMap routers
      · rw [List.foldl_cons, foldl_neutral plain]
        exact before.bind endpoint _ bindMap routers
      · have silent : boundAfter (boundAt events) (.handled sender cmd) = boundAt events := by
          cases cmd with
          | unbind endpoint => exact absurd rfl (other endpoint)
          | _ => rfl
        rw [foldl_neutral plain, silent]
        exact ⟨by rw [bindMap]; exact before.unbound, by rw [bindMap, routers]; exact before.bound⟩

theorem routers_grow {origin : Process} {later : List Event} {start : List Event}
    (run : Run (machine cfg) allowed start origin)
    (steps : Steps (machine cfg) allowed origin later process) {index : Nat} {socket : Nat}
    (listed : origin.broker.routerSockets[index]? = some (some socket)) :
    process.broker.routerSockets[index]? = some (some socket) := by
  refine Steps.invariant
    (fun _ process => process.broker.routerSockets[index]? = some (some socket)) listed ?_ steps
  intro events process action emitted after earlier before _ fired
  rcases tables_step (sound_of_run (run.trans earlier)) (step_move fired) with
    ⟨_, routers, _⟩ | ⟨_, _, _, _, _, changed⟩
  · rw [routers, before]
  · rcases changed with ⟨_, _, _, routers, _⟩ | ⟨_, _, _, _, routers, _⟩ | ⟨_, _, routers, _⟩
    · rw [routers, before]
    · rw [routers, List.getElem?_append_left (List.getElem?_eq_some_iff.mp before).1, before]
    · rw [routers, before]

def debt (flights : List Flight) : List Reply :=
  flights.filterMap fun
    | .unread _ => none
    | .deleting _ => some .unbound
    | .answered body => some body

theorem debt_flights (process : Process) (thread : Thread) :
    debt (flights process thread) = process.replies thread ++ owed process thread := by
  have answers : ∀ bodies : List Reply, debt (bodies.map Flight.answered) = bodies := by
    intro bodies
    induction bodies with
    | nil => rfl
    | cons body rest ih => simp [debt]
  have deletions : ∀ sockets : List Nat,
      debt (sockets.map Flight.deleting) = sockets.map (fun _ => .unbound) := by
    intro sockets
    induction sockets with
    | nil => rfl
    | cons socket rest ih => simp [debt]
  have commands : ∀ commands : List Command, debt (commands.map Flight.unread) = [] := by
    intro commands
    induction commands with
    | nil => rfl
    | cons cmd rest ih => simp [debt]
  have append : ∀ left right, debt (left ++ right) = debt left ++ debt right :=
    fun _ _ => List.filterMap_append ..
  simp only [flights, append, answers, deletions, commands, owed, List.append_nil,
    List.append_assoc]

theorem inOrder_of_run (run : Run (machine cfg) allowed events process) (thread : Thread) :
    got thread events ++ process.replies thread = sent thread events := by
  refine Steps.invariant
    (fun events process => got thread events ++ process.replies thread = sent thread events) rfl ?_
    run
  intro events process action emitted after earlier before _ fired
  rw [got_append, sent_append, ← before]
  cases flight_step (sound_of_run earlier) (step_move fired) (matched_of_run earlier thread).1 with
  | still calls same unasked replies unread => simp [unread, replies]
  | begins cmd idle waits grown unasked unsent replies unread => simp [unread, unsent, replies]
  | ends body waits idle only none unasked unsent replies read => simp [read, unsent, replies]
  | reads cmd fate calls only becomes asks unsent replies unread outcome =>
    simp [unread, unsent, replies]
  | deleted socket calls only becomes unasked unsent replies unread gone =>
    simp [unread, unsent, replies]

theorem Answers.mono {thread : Thread} {cmd : Command} {body : Reply} {first : List Event}
    (answers : Answers first thread cmd body) (second : List Event) :
    Answers (first ++ second) thread cmd body := by
  unfold Answers at answers ⊢
  split <;> simp_all

theorem handled_of_asked {thread : Thread} {cmd : Command}
    (asks : asked thread emitted = [cmd]) : .handled thread cmd ∈ emitted := by
  have member : cmd ∈ asked thread emitted := by rw [asks]; exact List.mem_singleton_self _
  obtain ⟨event, inside, shown⟩ := List.mem_filterMap.mp member
  cases event with
  | handled sender other =>
    simp only at shown
    split at shown
    · next here =>
      cases shown
      exact here.1 ▸ inside
    · cases shown
  | _ => cases shown

theorem asked_handled {thread : Thread} {cmd : Command} (waiting : blocks cmd = true)
    (rest : List Event) : asked thread (.handled thread cmd :: rest) = cmd :: asked thread rest := by
  simp [asked, waiting]

/-- A command that ends without an answer was refused, or is an unbind of an
endpoint that is not bound. -/
theorem unanswered_unbound {action : Action} {thread : Thread} {cmd : Command}
    (run : Run (machine cfg) Accepted events process) (permitted : Accepted process action)
    (fired : (machine cfg).step process action = some (after, emitted))
    (asks : asked thread emitted = [cmd])
    (outcome : after.broker.phase = .faulted ∨
      ∃ endpoint, cmd = .unbind endpoint ∧ process.broker.bindMap endpoint = none) :
    unbindsBound (boundAt events) emitted = false := by
  obtain ⟨i, oracle, rest, result, _, _, _, _, _, _, _, same⟩ :=
    handled_move (step_move fired) (handled_of_asked asks)
  rcases outcome with stopped | ⟨endpoint, rfl, missing⟩
  · exact absurd stopped (alive_of_run (run.next permitted fired) (fun _ _ accepted => accepted.1))
  · have unbound : boundAt events endpoint = none := by
      cases known : boundAt events endpoint with
      | none => rfl
      | some index =>
        obtain ⟨socket, named, _⟩ := (directory_of_run run).bound endpoint index known
        rw [missing] at named
        cases named
    rw [same, unbindsBound]
    simp [unbindBound, unbound]

theorem answers_of_run (run : Run (machine cfg) Accepted events process)
    (bound : unbindsBound (fun _ => none) events = true) (thread : Thread) :
    List.Forall₂ (Answers events thread) (asked thread events)
      (got thread events ++ debt (flights process thread)) := by
  refine Steps.invariant (fun events process => unbindsBound (fun _ => none) events = true →
    List.Forall₂ (Answers events thread) (asked thread events)
      (got thread events ++ debt (flights process thread))) (fun _ => .nil) ?_ run bound
  intro events process action emitted after earlier before permitted fired bound
  rw [unbindsBound_append, Bool.and_eq_true] at bound
  have grown : List.Forall₂ (Answers (events ++ emitted) thread) (asked thread events)
      (got thread events ++ debt (flights process thread)) :=
    (before bound.1).imp (fun _ _ answers => answers.mono emitted)
  rw [asked_append, got_append]
  cases flight_step (sound_of_run earlier) (step_move fired) (matched_of_run earlier thread).1 with
  | still calls same unasked replies unread => simpa [unasked, unread, same] using grown
  | begins cmd idle waits more unasked unsent replies unread =>
    simpa [unasked, unread, more, debt] using grown
  | ends body waits idle only none unasked unsent replies read =>
    simpa [unasked, read, only, none, debt] using grown
  | reads cmd fate calls only becomes asks unsent replies unread outcome =>
    have settled : List.Forall₂ (Answers (events ++ emitted) thread) (asked thread events)
        (got thread events) := by
      simpa [only, debt] using grown
    rw [asks, unread, becomes, List.append_nil]
    refine List.rel_append settled ?_
    rcases outcome with ⟨_, lost⟩ | ⟨endpoint, index, rfl, rfl⟩ |
      ⟨endpoint, index, rfl, rfl, created⟩ | ⟨endpoint, socket, rfl, rfl, _⟩
    · have broken := unanswered_unbound earlier permitted fired asks lost
      exact absurd bound.2 (by simpa [boundAt] using broken)
    · exact .cons trivial .nil
    · exact .cons (List.mem_append_right _ created) .nil
    · exact .cons trivial .nil
  | deleted socket calls only becomes unasked unsent replies unread gone =>
    simpa [unasked, unread, only, becomes, debt] using grown

/-- A thread waits and nothing is under way for it. -/
def InVain (process : Process) (thread : Thread) : Prop :=
  blocked (process.calls thread) = true ∧ flights process thread = []

/-- A step that reads an unbind of an endpoint that is not bound leaves the
sender waiting in vain. -/
theorem vain_begins (run : Run (machine cfg) allowed events process) {action : Action}
    (fired : (machine cfg).step process action = some (after, emitted))
    (broken : unbindsBound (boundAt events) emitted ≠ true) : ∃ thread, InVain after thread := by
  rcases tables_step (sound_of_run run) (step_move fired) with
    ⟨_, _, plain⟩ | ⟨sender, cmd, rest, rfl, _, changed⟩
  · exact absurd (unbindsBound_neutral plain _) broken
  · have outcome : ∃ endpoint, cmd = .unbind endpoint ∧ boundAt events endpoint = none := by
      rcases changed with ⟨endpoint, rfl, _, _, plain⟩ |
        ⟨endpoint, others, rfl, _, _, rfl, plain⟩ | ⟨other, _, _, plain⟩
      · rw [unbindsBound, unbindsBound_neutral plain, Bool.and_true] at broken
        exact ⟨endpoint, rfl, by simpa [unbindBound] using broken⟩
      · rw [unbindsBound, unbindsBound, unbindsBound_neutral plain] at broken
        exact absurd rfl broken
      · rw [unbindsBound, unbindsBound_neutral plain, Bool.and_true] at broken
        cases cmd with
        | unbind endpoint => exact absurd rfl (other endpoint)
        | _ => exact absurd rfl broken
    obtain ⟨endpoint, rfl, unbound⟩ := outcome
    have missing := (directory_of_run run).unbound endpoint unbound
    have matched := matched_of_run run sender
    have asking : asked sender (.handled sender (.unbind endpoint) :: rest) =
        .unbind endpoint :: asked sender rest := asked_handled rfl rest
    cases flight_step (sound_of_run run) (step_move fired) matched.1 with
    | reads cmd fate calls only becomes asks unsent replies unread outcome =>
      rw [asking, List.cons.injEq] at asks
      obtain ⟨rfl, _⟩ := asks
      rcases outcome with ⟨rfl, _⟩ | ⟨_, _, other, _⟩ | ⟨_, _, other, _⟩ | ⟨name, _, same, _, found⟩
      · have waits := matched.2 _ (by rw [only]; exact List.mem_singleton_self _)
        exact ⟨sender, calls ▸ waits.blocked, becomes⟩
      · cases other
      · cases other
      · cases same
        rw [missing] at found
        cases found
    | still calls same unasked => simp [asking] at unasked
    | begins cmd idle waits grown unasked => simp [asking] at unasked
    | ends body waits idle only none unasked => simp [asking] at unasked
    | deleted socket calls only becomes unasked => simp [asking] at unasked

theorem vain_persists (run : Run (machine cfg) allowed events process) {action : Action}
    (fired : (machine cfg).step process action = some (after, emitted)) {thread : Thread}
    (vain : InVain process thread) : InVain after thread := by
  obtain ⟨waiting, empty⟩ := vain
  cases flight_step (sound_of_run run) (step_move fired) (matched_of_run run thread).1 with
  | still calls same =>
    rcases calls with kept | ⟨idle, _⟩
    · exact ⟨kept ▸ waiting, same.trans empty⟩
    · rw [idle] at waiting
      cases waiting
  | begins cmd idle =>
    rw [idle] at waiting
    cases waiting
  | ends body waits idle only => simp [empty] at only
  | reads cmd fate calls only => simp [empty] at only
  | deleted socket calls only => simp [empty] at only

theorem vain_step (run : Run (machine cfg) Accepted events process) {action : Action}
    (permitted : Accepted process action)
    (fired : (machine cfg).step process action = some (after, emitted))
    (bound : unbindsBound (boundAt events) emitted = true) {thread : Thread}
    (vain : InVain after thread) : InVain process thread := by
  obtain ⟨waiting, empty⟩ := vain
  cases flight_step (sound_of_run run) (step_move fired) (matched_of_run run thread).1 with
  | still calls same =>
    rcases calls with kept | ⟨_, idle⟩
    · exact ⟨kept ▸ waiting, same.symm.trans empty⟩
    · rw [idle] at waiting
      cases waiting
  | begins cmd idle waits grown => simp [empty] at grown
  | ends body waits idle =>
    rw [idle] at waiting
    cases waiting
  | reads cmd fate calls only becomes asks unsent replies unread outcome =>
    rcases outcome with ⟨_, lost⟩ | ⟨_, _, _, rfl⟩ | ⟨_, _, _, rfl, _⟩ | ⟨_, _, _, rfl, _⟩
    · rw [unanswered_unbound run permitted fired asks lost] at bound
      cases bound
    · simp [empty] at becomes
    · simp [empty] at becomes
    · simp [empty] at becomes
  | deleted socket calls only becomes => simp [empty] at becomes

theorem vain_iff (run : Run (machine cfg) Accepted events process) :
    unbindsBound (fun _ => none) events = true ↔ ∀ thread, ¬ InVain process thread := by
  refine Steps.invariant (fun events process => unbindsBound (fun _ => none) events = true ↔
    ∀ thread, ¬ InVain process thread) ?_ ?_ run
  · refine ⟨fun _ thread vain => ?_, fun _ => rfl⟩
    cases vain.1
  · intro events process action emitted after earlier before permitted fired
    rw [unbindsBound_append, Bool.and_eq_true]
    constructor
    · rintro ⟨bound, here⟩ thread vain
      exact before.mp bound thread (vain_step earlier permitted fired here vain)
    · intro none_waits
      constructor
      · exact before.mpr (fun thread vain =>
          none_waits thread (vain_persists earlier fired vain))
      · by_contra broken
        obtain ⟨thread, vain⟩ := vain_begins earlier fired broken
        exact none_waits thread vain

/-! The reply to an unbind, and what a thread reads. -/

/-- A waiting unbind was read, and its socket is deleted before the reply is made. -/
structure Unbinding (events : List Event) (routers : List (Option Nat)) (thread : Thread)
    (flights : List Flight) : Prop where
  deleting : ∀ socket, .deleting socket ∈ flights → UnbindRead events routers thread socket
  answered : .answered .unbound ∈ flights → UnbindDone events routers thread

theorem Unbinding.later {thread : Thread} {routers grown : List (Option Nat)}
    {flights left : List Flight} (known : Unbinding events routers thread flights)
    (grow : ∀ (index socket : Nat), routers[index]? = some (some socket) →
      grown[index]? = some (some socket)) (unasked : asked thread emitted = [])
    (fewer : ∀ flight ∈ left, flight ∈ flights ∨ ∃ cmd, flight = .unread cmd) :
    Unbinding (events ++ emitted) grown thread left where
  deleting := by
    intro socket member
    rcases fewer _ member with old | ⟨cmd, other⟩
    · obtain ⟨before, endpoint, rest, index, rfl, none, bound, listed⟩ := known.deleting socket old
      exact ⟨before, endpoint, rest ++ emitted, index, by simp, by simp [none, unasked], bound,
        grow index socket listed⟩
    · cases other
  answered := by
    intro member
    rcases fewer _ member with old | ⟨cmd, other⟩
    · obtain ⟨before, endpoint, rest, index, socket, rfl, none, bound, listed, gone⟩ :=
        known.answered old
      exact ⟨before, endpoint, rest ++ emitted, index, socket, by simp, by simp [none, unasked],
        bound, grow index socket listed, List.mem_append_left _ gone⟩
    · cases other

theorem unbinding_of_run (run : Run (machine cfg) allowed events process) (thread : Thread) :
    Unbinding events process.broker.routerSockets thread (flights process thread) := by
  refine Steps.invariant (fun events process =>
    Unbinding events process.broker.routerSockets thread (flights process thread)) ?_ ?_ run
  · constructor
    · intro socket member
      cases member
    · intro member
      cases member
  · intro events process action emitted after earlier before permitted fired
    have grow : ∀ (index socket : Nat), process.broker.routerSockets[index]? = some (some socket) →
        after.broker.routerSockets[index]? = some (some socket) :=
      fun _ _ listed => routers_grow earlier (.single permitted fired) listed
    cases flight_step (sound_of_run earlier) (step_move fired) (matched_of_run earlier thread).1 with
    | still calls same unasked =>
      rw [same]
      exact before.later grow unasked (fun flight member => .inl member)
    | begins cmd idle waits grown unasked =>
      rw [grown]
      refine before.later grow unasked (fun flight member => ?_)
      rcases List.mem_append.mp member with old | new
      · exact .inl old
      · exact .inr ⟨cmd, List.mem_singleton.mp new⟩
    | ends body waits idle only none unasked =>
      rw [none]
      exact before.later grow unasked (by simp)
    | reads cmd fate calls only becomes asks unsent replies unread outcome =>
      obtain ⟨i, oracle, rest, result, _, _, _, _, _, _, _, same⟩ :=
        handled_move (step_move fired) (handled_of_asked asks)
      rw [becomes]
      rcases outcome with ⟨rfl, _⟩ | ⟨_, _, _, rfl⟩ | ⟨_, _, _, rfl, _⟩ | ⟨endpoint, socket, rfl, rfl, found⟩
      · constructor <;> simp
      · constructor <;> simp
      · constructor <;> simp
      · refine ⟨fun other member => ?_, fun member => by simp at member⟩
        simp only [Option.toList_some, List.mem_singleton, Flight.deleting.injEq] at member
        subst member
        obtain ⟨index, known⟩ : ∃ index, boundAt events endpoint = some index := by
          cases known : boundAt events endpoint with
          | none =>
            rw [(directory_of_run earlier).unbound endpoint known] at found
            cases found
          | some index => exact ⟨index, rfl⟩
        obtain ⟨socket, named, listed⟩ := (directory_of_run earlier).bound endpoint index known
        rw [found, Option.some.injEq] at named
        subst named
        rw [same] at asks ⊢
        rw [asked_handled rfl, List.cons.injEq] at asks
        exact ⟨events, endpoint, _, index, rfl, asks.2, known, grow _ _ listed⟩
    | deleted socket calls only becomes unasked unsent replies unread gone =>
      rw [becomes]
      refine ⟨fun other member => by simp at member, fun _ => ?_⟩
      obtain ⟨first, endpoint, rest, index, rfl, none, bound, listed⟩ :=
        before.deleting socket (by simp [only])
      exact ⟨first, endpoint, rest ++ emitted, index, socket, by simp, by simp [none, unasked], bound,
        grow _ _ listed, List.mem_append_right _ gone⟩

theorem sent_occurs {thread : Thread} {body : Reply} {before rest : List Event} :
    sent thread (before ++ .replied thread body :: rest) =
      sent thread before ++ body :: sent thread rest := by
  simp [sent]

theorem got_occurs {thread : Thread} {body : Reply} {before rest : List Event} :
    got thread (before ++ .received thread body :: rest) =
      got thread before ++ body :: got thread rest := by
  simp [got]

theorem deleted_before_reply (run : Run (machine cfg) allowed events process)
    {before rest : List Event} {thread : Thread}
    (split : events = before ++ .replied thread .unbound :: rest) :
    UnbindDone before process.broker.routerSockets thread := by
  subst split
  obtain ⟨earlier, pre, post, later, state, action, after, stem, permitted, fired, rfl, remaining,
    _⟩ := run.occurs
  have known := unbinding_of_run stem thread
  cases flight_step (sound_of_run stem) (step_move fired) (matched_of_run stem thread).1 with
  | still calls same unasked replies =>
    have flying : .answered .unbound ∈ flights state thread := by
      rw [← same]
      refine List.mem_append_left _ (List.mem_append_left _ (List.mem_append_left _ ?_))
      rw [replies, sent_occurs]
      exact List.mem_map_of_mem (by simp)
    have grow : ∀ (index socket : Nat), state.broker.routerSockets[index]? = some (some socket) →
        process.broker.routerSockets[index]? = some (some socket) :=
      fun _ _ listed => routers_grow stem ((Steps.single permitted fired).trans remaining) listed
    rw [asked_append, List.append_eq_nil_iff] at unasked
    exact (known.later grow unasked.1 (fun flight member => .inl member)).answered flying
  | begins cmd idle waits grown unasked unsent =>
    rw [sent_occurs] at unsent
    simp at unsent
  | ends body waits idle only none unasked unsent =>
    rw [sent_occurs] at unsent
    simp at unsent
  | reads cmd fate calls only becomes asks unsent =>
    rw [sent_occurs] at unsent
    simp at unsent
  | deleted socket calls only becomes unasked unsent =>
    rw [sent_occurs] at unsent
    simp at unsent

theorem own_reply (run : Run (machine cfg) Accepted events process)
    (bound : unbindsBound (fun _ => none) events = true) {before rest : List Event} {thread : Thread}
    {body : Reply} (split : events = before ++ .received thread body :: rest) :
    ∃ earlier cmd, asked thread before = earlier ++ [cmd] ∧
      earlier.length = (got thread before).length ∧ Answers before thread cmd body := by
  subst split
  obtain ⟨earlier, pre, post, later, state, action, after, stem, permitted, fired, rfl, _, _⟩ :=
    run.occurs
  rw [List.append_assoc, unbindsBound_append, Bool.and_eq_true] at bound
  have matching := answers_of_run stem bound.1 thread
  cases flight_step (sound_of_run stem) (step_move fired) (matched_of_run stem thread).1 with
  | ends other waits idle only none unasked unsent replies read =>
    rw [got_occurs] at read
    obtain ⟨silent, tail⟩ : got thread pre = [] ∧ body :: got thread post = [other] := by
      cases first : got thread pre with
      | nil => exact ⟨rfl, by simpa [first] using read⟩
      | cons head more => simp [first] at read
    obtain rfl : body = other := by simpa using congrArg List.head? tail
    rw [asked_append, List.append_eq_nil_iff] at unasked
    rw [only] at matching
    have last := List.forall₂_drop_append _ _ _ matching
    obtain ⟨cmd, nothing, answers, done, same⟩ := List.forall₂_cons_right_iff.mp last
    obtain rfl := List.forall₂_nil_right_iff.mp done
    have whole := List.take_append_drop (got thread earlier).length (asked thread earlier)
    have first := (List.forall₂_take_append _ _ _ matching).length_eq
    refine ⟨(asked thread earlier).take (got thread earlier).length, cmd, ?_, ?_,
      answers.mono pre⟩
    · rw [asked_append, unasked.1, List.append_nil, ← same, whole]
    · rw [got_append, silent, List.append_nil]
      exact first
  | still calls same unasked replies unread =>
    rw [got_occurs] at unread
    simp at unread
  | begins cmd idle waits grown unasked unsent replies unread =>
    rw [got_occurs] at unread
    simp at unread
  | reads cmd fate calls only becomes asks unsent replies unread =>
    rw [got_occurs] at unread
    simp at unread
  | deleted socket calls only becomes unasked unsent replies unread =>
    rw [got_occurs] at unread
    simp at unread

/-! While the manager is in use nobody has asked the broker to quit. -/

structure Working (process : Process) : Prop where
  loops : process.broker.reactor.shouldQuit = false
  inside : process.broker.phase ≠ .exited
  unasked : ∀ thread, .quit ∉ process.pipes thread

theorem threadMove_quit {thread : Thread} {action : ThreadAction}
    (move : ThreadMove cfg process thread action after emitted) (other : Thread)
    (member : .quit ∈ after.pipes other) : .quit ∈ process.pipes other := by
  have written : ∀ commands : List Command, .quit ∉ commands →
      .quit ∈ (process.write thread commands).pipes other → .quit ∈ process.pipes other := by
    intro commands plain inside
    by_cases here : other = thread
    · subst here
      simpa [Process.write, plain] using inside
    · simpa [Process.write, Function.update_of_ne here] using inside
  cases move with
  | requested | connect | bind | serverBind | unbind | add | registerService | reply | nextUnbind =>
    exact written _ (by simp) member
  | _ => exact member

theorem handleCommand_loops {broker : Broker} {oracle : Oracle} {sender : Thread} {cmd : Command}
    (other : cmd ≠ .quit) :
    (broker.handleCommand cfg oracle sender cmd).1.reactor.shouldQuit = broker.reactor.shouldQuit := by
  cases cmd with
  | quit => exact absurd rfl other
  | runClosure | registerSvc => rfl
  | connect endpoint =>
    simp only [Broker.handleCommand, Broker.handleConnectCommand]
    split <;> rfl
  | bind endpoint =>
    simp only [Broker.handleCommand, Broker.handleBindCommand]
    split <;> rfl
  | unbind endpoint =>
    simp only [Broker.handleCommand, Broker.handleUnbindCommand]
    split <;> rfl
  | request info ctrl data =>
    obtain ⟨closures, same⟩ := sendRequest_timers cfg broker oracle info ctrl data
    simp only [Broker.handleCommand, same]
    split <;> rfl
  | reply info data =>
    simp only [Broker.handleCommand, Broker.forwardTo]
    split <;> rfl

theorem working_of_run (run : Run (machine cfg) Accepted events process)
    (running : process.shutdown = .running) : Working process := by
  refine Steps.invariant (fun _ process => process.shutdown = .running → Working process) ?_ ?_ run
    running
  · exact fun _ => ⟨rfl, by simp [machine, Process.new, Broker.new], fun _ => List.not_mem_nil⟩
  · intro events process action emitted after earlier before permitted fired running
    cases step_move fired with
    | thread thread action after emitted open_ move =>
      have frame := threadMove_frame move
      have known := before open_
      exact ⟨by rw [frame.1]; exact known.loops, by rw [frame.1]; exact known.inside,
        fun other member => known.unasked other (threadMove_quit move other member)⟩
    | loopTop phase performed =>
      have known := before running
      rcases (sound_of_run earlier (by simp [phase])).loopTop_cases with
        ⟨_, quit⟩ | ⟨same, go, _⟩ | ⟨go, rebuilt, removed, ran, spec, same⟩
      · rw [known.loops] at quit
        cases quit
      · rw [same]
        exact ⟨go, by simp, known.unasked⟩
      · rw [same]
        exact ⟨spec.quits.trans go, by simp [Broker.emit], known.unasked⟩
    | timers now phase performed =>
      exact ⟨(before running).loops, by simp [Broker.runTimers, Broker.emit], (before running).unasked⟩
    | poll outcome phase performed =>
      have known := before running
      cases outcome with
      | eterm => exact absurd rfl permitted.2
      | ready | error | efault =>
        exact ⟨known.loops, by simp [Broker.afterPoll, Broker.fault], known.unasked⟩
    | finished | quiet | outOfRange =>
      exact ⟨(before running).loops, by simp, (before running).unasked⟩
    | command i sender oracle cmd rest phase performed slot unread result same =>
      subst same
      have known := before running
      have other : cmd ≠ .quit := by
        rintro rfl
        exact known.unasked sender (by simp [unread])
      refine ⟨(handleCommand_loops other).trans known.loops, ?_, fun thread member => ?_⟩
      · have books : Sound (ownership { process.broker with phase := .dispatch (i + 1) }) :=
          sound_of_run earlier (by simp [phase])
        have spec := handleCommand_fault books cfg oracle sender cmd
        split at spec
        · rw [spec.2]
          simp
        · rw [spec.2]
          simp
      · by_cases here : thread = sender
        · subst here
          simp only [Function.update_self] at member
          exact known.unasked thread (by rw [unread]; exact List.mem_cons_of_mem _ member)
        · simp only [Function.update_of_ne here] at member
          exact known.unasked thread member
    | message i callback frames phase performed slot network nonempty result same =>
      subst same
      have known := before running
      have books : Sound (ownership { process.broker with phase := .dispatch (i + 1) }) :=
        sound_of_run earlier (by simp [phase])
      rcases books.receive_cases cfg frames slot network with ⟨info, data, same⟩ | same
      · obtain ⟨outputs, emitted⟩ := handleSocket_fst cfg
          { process.broker with phase := .dispatch (i + 1) } info data
        rw [same, emitted]
        exact ⟨known.loops, by simp [Broker.emit], known.unasked⟩
      · rw [same]
        exact ⟨known.loops, by simp, known.unasked⟩
    | flush output rest live unperformed =>
      have pipes : ((process.setOutbox rest).perform output).1.pipes = process.pipes := by
        cases output with
        | push | reply => rfl
        | send info socket frames cause =>
          simp only [Process.perform]
          split <;> rfl
      have shutdown : ((process.setOutbox rest).perform output).1.shutdown = process.shutdown := by
        cases output with
        | push | reply => rfl
        | send info socket frames cause =>
          simp only [Process.perform]
          split <;> rfl
      have known := before (shutdown ▸ running)
      rcases perform_broker (process.setOutbox rest) output with same | same
      · exact ⟨by rw [same]; exact known.loops, by rw [same]; exact known.inside,
          by rw [pipes]; exact known.unasked⟩
      · exact ⟨by rw [same]; exact known.loops, by rw [same]; simp, by rw [pipes]; exact known.unasked⟩
    | worker index cmd rest legal on idle unread result same =>
      have known := before running
      refine ⟨known.loops, known.inside, fun thread member => ?_⟩
      by_cases here : thread = .worker index
      · subst here
        simp only [Process.write, Function.update_self] at member
        rcases List.mem_append.mp member with old | new
        · exact known.unasked _ old
        · obtain ⟨info, data, other⟩ := EventIds.exec_writes _ _ _ _ _ (same ▸ new)
          cases other
      · simp only [Process.write, Function.update_of_ne here] at member
        exact known.unasked thread member
    | release | joinBroker | joinWorkers => cases running

theorem loop_goes_on (run : Run (machine cfg) Accepted events process)
    (running : process.shutdown = .running) : process.broker.phase ≠ .exited ∧
      process.broker.phase ≠ .faulted ∧
      ∀ socket thread, (socket, thread) ∈ process.broker.reactor.delSockets →
        .reply thread .unbound ∈ process.broker.loopTop.1.outbox := by
  have working := working_of_run run running
  have alive := alive_of_run run (fun _ _ accepted => accepted.1)
  refine ⟨working.inside, alive, fun socket thread member => ?_⟩
  rcases (sound_of_run run alive).loopTop_cases with
    ⟨_, quit⟩ | ⟨_, _, unmarked⟩ | ⟨_, rebuilt, removed, ran, spec, same⟩
  · rw [working.loops] at quit
    cases quit
  · rw [unmarked] at member
    cases member
  · rw [same]
    refine List.mem_append_right _ (List.mem_map.mpr ⟨thread, ?_, rfl⟩)
    exact spec.answered.mem_iff.mpr (List.mem_map.mpr ⟨_, member, rfl⟩)

/-- Every blocking command is answered exactly once exactly in the histories in
which every unbind that is read names a bound endpoint. -/
theorem blocking_answered_iff (run : Run (machine cfg) Accepted events process) :
    BlockingAnswered events process ↔ unbindsBound (fun _ => none) events = true := by
  constructor
  · intro answered
    refine (vain_iff run).mpr (fun thread vain => ?_)
    obtain ⟨flight, only, _⟩ := answered.onItsWay thread vain.1
    rw [vain.2] at only
    cases only
  · intro bound
    have matched := matched_of_run run
    exact
    { answers := by
        intro thread
        rw [← inOrder_of_run run thread, List.append_assoc, ← debt_flights]
        exact answers_of_run run bound thread
      inOrder := inOrder_of_run run
      onItsWay := by
        intro thread waiting
        obtain ⟨few, waits⟩ := matched thread
        cases shape : flights process thread with
        | nil => exact absurd ⟨waiting, shape⟩ ((vain_iff run).mp bound thread)
        | cons flight rest =>
          rw [shape] at few waits
          have alone : rest = [] := List.length_eq_zero_iff.mp (by simpa using few)
          exact ⟨flight, by rw [alone], waits flight List.mem_cons_self⟩
      nothingElse := fun thread idle => matched.none_idle idle
      own := fun before thread body rest split => own_reply run bound split
      afterDeletion := fun before thread rest split => deleted_before_reply run split
      loopGoesOn := loop_goes_on run }

/-- One turn of the loop that reads a command of thread 0, with `count` sockets. -/
def turn (count : Nat) : List Action :=
  [.loopTop, .timers 0, .poll (.ready (true :: List.replicate (count - 1) false)),
    .dispatch (.frontend (.app 0) ⟨true, 0, 0⟩)]

def boundAndUnbound : List Action :=
  [.thread (.app 0) (.bind [1] 0)] ++ turn 1 ++ [.flush, .dispatch .nothing,
    .thread (.app 0) .receive, .thread (.app 0) .insertFactories, .thread (.app 0) (.unbind [1])] ++
    turn 2 ++ [.dispatch .nothing, .dispatch .nothing, .loopTop, .flush, .thread (.app 0) .receive]

theorem blocking_answered_unbound :
    BlockingAnswered (reached ((machine plain).guarded Accepted) boundAndUnbound).2
      (reached ((machine plain).guarded Accepted) boundAndUnbound).1 :=
  (blocking_answered_iff (Steps.of_guarded
    (run_reached ((machine plain).guarded Accepted) boundAndUnbound))).mpr (by decide +kernel)

def unboundOnly : List Action := .thread (.app 0) (.unbind [1]) :: turn 1

/-- The broker reads the command and nothing answers it. -/
theorem unbind_unanswered : ¬ ∀ cfg events process, Run (machine cfg) Accepted events process →
    BlockingAnswered events process := by
  intro claim
  have ran := Steps.of_guarded (run_reached ((machine plain).guarded Accepted) unboundOnly)
  obtain ⟨flight, only, _⟩ := (claim _ _ _ ran).onItsWay (.app 0) (by decide +kernel)
  have empty : flights (reached ((machine plain).guarded Accepted) unboundOnly).1 (.app 0) = [] := by
    decide +kernel
  rw [empty] at only
  cases only

end Rpcz.BlockingReplies
