import Rpcz.BrokerFaults
import Rpcz.EventIds

/-!
Where the answer to a blocking call is. `connect`, `manager::bind` and
`manager::unbind` write one command and wait; `flights` lists the unread
command, the deletion callback and the replies of one thread, and `FlightStep`
says once what a step can do to them.
-/

namespace Rpcz.BlockingCalls
open Automaton Message EventLog ReactorLoop WorkerThread BrokerThread ProcessModel Moves History
  SocketDeletion BrokerSockets BrokerFaults EventIds

def blocks : Command → Bool
  | .connect _ | .bind _ | .unbind _ => true
  | _ => false

def blocked : Call → Bool
  | .connecting | .binding _ | .unbinding _ => true
  | _ => false

inductive Flight where
  | unread (cmd : Command)
  | deleting (socket : Nat)
  | answered (body : Reply)
deriving DecidableEq

def Waits : Call → Flight → Prop
  | .connecting, .unread (.connect _) => True
  | .connecting, .answered (.socketIndex _) => True
  | .binding _, .unread (.bind _) => True
  | .binding _, .answered (.socketIndex _) => True
  | .unbinding _, .unread (.unbind _) => True
  | .unbinding _, .deleting _ => True
  | .unbinding _, .answered .unbound => True
  | _, _ => False

def leaving (thread : Thread) (outbox : List Output) : List Reply :=
  outbox.filterMap fun
    | .reply receiver body => if receiver = thread then some body else none
    | _ => none

def deleting (thread : Thread) (marked : List (Nat × Thread)) : List Nat :=
  marked.filterMap (fun entry => if entry.2 = thread then some entry.1 else none)

def unread (process : Process) (thread : Thread) : List Command :=
  (process.pipes thread).filter blocks

def flights (process : Process) (thread : Thread) : List Flight :=
  (process.replies thread).map .answered ++ (leaving thread process.broker.outbox).map .answered ++
    (deleting thread process.broker.reactor.delSockets).map .deleting ++
    (unread process thread).map .unread

def owed (process : Process) (thread : Thread) : List Reply :=
  leaving thread process.broker.outbox ++
    (deleting thread process.broker.reactor.delSockets).map (fun _ => .unbound)

def asked (thread : Thread) (events : List Event) : List Command :=
  events.filterMap fun
    | .handled sender cmd => if sender = thread ∧ blocks cmd then some cmd else none
    | _ => none

def sent (thread : Thread) (events : List Event) : List Reply :=
  events.filterMap fun
    | .replied receiver body => if receiver = thread then some body else none
    | _ => none

def got (thread : Thread) (events : List Event) : List Reply :=
  events.filterMap fun
    | .received receiver body => if receiver = thread then some body else none
    | _ => none

section Projections
variable (thread : Thread) (first second : List Event)

@[simp] theorem asked_append :
    asked thread (first ++ second) = asked thread first ++ asked thread second :=
  List.filterMap_append ..

@[simp] theorem sent_append :
    sent thread (first ++ second) = sent thread first ++ sent thread second :=
  List.filterMap_append ..

@[simp] theorem got_append :
    got thread (first ++ second) = got thread first ++ got thread second :=
  List.filterMap_append ..

@[simp] theorem leaving_append (outbox more : List Output) :
    leaving thread (outbox ++ more) = leaving thread outbox ++ leaving thread more :=
  List.filterMap_append ..

theorem asked_other {events : List Event} (elsewhere : ∀ event ∈ events, origin event ≠ .handled) :
    asked thread events = [] := by
  refine filterMap_other .handled (fun event other => ?_) elsewhere
  cases event <;> simp_all [origin]

theorem sent_other {events : List Event} (elsewhere : ∀ event ∈ events, origin event ≠ .broker) :
    sent thread events = [] := by
  refine filterMap_other .broker (fun event other => ?_) elsewhere
  cases event <;> simp_all [origin]

theorem got_other {events : List Event} (elsewhere : ∀ event ∈ events, origin event ≠ .thread) :
    got thread events = [] := by
  refine filterMap_other .thread (fun event other => ?_) elsewhere
  cases event <;> simp_all [origin]

end Projections

theorem deleting_snoc (thread sender : Thread) (marked : List (Nat × Thread)) (socket : Nat) :
    deleting thread (marked ++ [(socket, sender)]) =
      deleting thread marked ++ if sender = thread then [socket] else [] := by
  unfold deleting
  rw [List.filterMap_append]
  by_cases here : sender = thread <;> simp [here]

theorem leaving_other {thread : Thread} {outbox : List Output}
    (silent : ∀ body, .reply thread body ∉ outbox) : leaving thread outbox = [] := by
  refine List.filterMap_eq_nil_iff.mpr (fun output member => ?_)
  cases output with
  | reply receiver body =>
    refine if_neg (fun here => ?_)
    subst here
    exact silent body member
  | push | send => rfl

inductive FlightStep (process after : Process) (emitted : List Event) (thread : Thread) : Prop where
  | still (calls : after.calls thread = process.calls thread ∨
        blocked (process.calls thread) = false ∧ blocked (after.calls thread) = false)
      (same : flights after thread = flights process thread) (unasked : asked thread emitted = [])
      (replies : after.replies thread = process.replies thread ++ sent thread emitted)
      (unread : got thread emitted = [])
  | begins (cmd : Command) (idle : blocked (process.calls thread) = false)
      (waits : Waits (after.calls thread) (.unread cmd))
      (grown : flights after thread = flights process thread ++ [.unread cmd])
      (unasked : asked thread emitted = []) (unsent : sent thread emitted = [])
      (replies : after.replies thread = process.replies thread) (unread : got thread emitted = [])
  | ends (body : Reply) (waits : Waits (process.calls thread) (.answered body))
      (idle : blocked (after.calls thread) = false)
      (only : flights process thread = [.answered body]) (none : flights after thread = [])
      (unasked : asked thread emitted = []) (unsent : sent thread emitted = [])
      (replies : process.replies thread = body :: after.replies thread)
      (read : got thread emitted = [body])
  | reads (cmd : Command) (fate : Option Flight) (calls : after.calls thread = process.calls thread)
      (only : flights process thread = [.unread cmd])
      (becomes : flights after thread = fate.toList)
      (asks : asked thread emitted = [cmd]) (unsent : sent thread emitted = [])
      (replies : after.replies thread = process.replies thread) (unread : got thread emitted = [])
      (outcome :
        fate = none ∧ (after.broker.phase = .faulted ∨
          ∃ endpoint, cmd = .unbind endpoint ∧ process.broker.bindMap endpoint = none) ∨
        (∃ endpoint index, cmd = .connect endpoint ∧ fate = some (.answered (.socketIndex index))) ∨
        (∃ endpoint index, cmd = .bind endpoint ∧ fate = some (.answered (.socketIndex index)) ∧
          .routerCreated thread endpoint index ∈ emitted) ∨
        ∃ endpoint socket, cmd = .unbind endpoint ∧ fate = some (.deleting socket) ∧
          process.broker.bindMap endpoint = some socket)
  | deleted (socket : Nat) (calls : after.calls thread = process.calls thread)
      (only : flights process thread = [.deleting socket])
      (becomes : flights after thread = [.answered .unbound])
      (unasked : asked thread emitted = []) (unsent : sent thread emitted = [])
      (replies : after.replies thread = process.replies thread) (unread : got thread emitted = [])
      (gone : .socketClosed socket ∈ emitted)

variable {cfg : Config} {process after : Process} {events emitted : List Event}
  {allowed : Process → Action → Prop}

theorem FlightStep.frame {thread : Thread} (calls : after.calls thread = process.calls thread ∨
      blocked (process.calls thread) = false ∧ blocked (after.calls thread) = false)
    (pipes : unread after thread = unread process thread)
    (replies : after.replies thread = process.replies thread)
    (outbox : leaving thread after.broker.outbox = leaving thread process.broker.outbox)
    (marked : deleting thread after.broker.reactor.delSockets =
      deleting thread process.broker.reactor.delSockets)
    (unasked : asked thread emitted = []) (unsent : sent thread emitted = [])
    (ungot : got thread emitted = []) : FlightStep process after emitted thread :=
  .still calls (by simp only [flights, pipes, replies, outbox, marked]) unasked
    (by simp [replies, unsent]) ungot

theorem threadMove_other {actor thread : Thread} {action : ThreadAction} (apart : thread ≠ actor)
    (move : ThreadMove cfg process actor action after emitted) :
    after.calls thread = process.calls thread ∧ after.pipes thread = process.pipes thread ∧
      after.replies thread = process.replies thread ∧ got thread emitted = [] := by
  cases move <;>
    simp [Process.setCall, Process.write, Process.startBind, Function.update_of_ne apart, got,
      apart.symm]

theorem unread_write {process : Process} {thread actor : Thread} {commands : List Command}
    (plain : ∀ cmd ∈ commands, blocks cmd = false) :
    unread (process.write actor commands) thread = unread process thread := by
  by_cases here : thread = actor
  · subst here
    simpa [unread, Process.write] using plain
  · simp [unread, Process.write, Function.update_of_ne here]

theorem threadMove_flight {thread : Thread} {action : ThreadAction}
    (few : (flights process thread).length ≤ 1)
    (move : ThreadMove cfg process thread action after emitted) :
    FlightStep process after emitted thread := by
  have frame := threadMove_frame move
  have unasked : asked thread emitted = [] :=
    asked_other thread (fun event member => by rw [frame.2.2.2.2 event member]; decide)
  have unsent : sent thread emitted = [] :=
    sent_other thread (fun event member => by rw [frame.2.2.2.2 event member]; decide)
  have outbox := congrArg (fun broker => leaving thread broker.outbox) frame.1
  have marked := congrArg (fun broker => deleting thread broker.reactor.delSockets) frame.1
  have begun : ∀ cmd, blocks cmd = true → blocked (process.calls thread) = false →
      Waits (after.calls thread) (.unread cmd) →
      after.pipes thread = process.pipes thread ++ [cmd] →
      after.replies thread = process.replies thread → got thread emitted = [] →
      FlightStep process after emitted thread := by
    intro cmd waiting idle waits written replies ungot
    have grown : unread after thread = unread process thread ++ [cmd] := by
      simp [unread, written, waiting]
    refine .begins cmd idle waits ?_ unasked unsent replies ungot
    simp only [flights, replies, grown] at outbox marked ⊢
    rw [outbox, marked]
    simp
  have ended : ∀ body rest, process.replies thread = body :: rest →
      Waits (process.calls thread) (.answered body) → blocked (after.calls thread) = false →
      after.replies thread = rest → unread after thread = unread process thread →
      got thread emitted = [body] → FlightStep process after emitted thread := by
    intro body rest answer waits idle left pipes read
    have shape : flights process thread = .answered body :: flights after thread := by
      simp only [flights, answer, left, pipes] at outbox marked ⊢
      rw [outbox, marked]
      simp
    have alone : flights after thread = [] := by
      rw [shape, List.length_cons] at few
      exact List.length_eq_zero_iff.mp (by omega)
    exact .ends body waits idle (by rw [shape, alone]) alone unasked unsent (by rw [answer, left]) read
  cases move with
  | connect endpoint idle =>
    exact begun (.connect endpoint) rfl (by rw [idle]; rfl) (by simp [Process.setCall, Waits])
      (by simp [Process.write, Process.setCall]) rfl rfl
  | unbind endpoint idle =>
    exact begun (.unbind endpoint) rfl (by rw [idle]; rfl) (by simp [Process.setCall, Waits])
      (by simp [Process.write, Process.setCall]) rfl rfl
  | bind endpoint factories idle =>
    exact begun (.bind endpoint) rfl (by rw [idle]; rfl) (by simp [Process.startBind, Process.setCall, Waits])
      (by simp [Process.write, Process.setCall, Process.startBind]) rfl rfl
  | serverBind server endpoint endpoints idle alive unbound =>
    exact begun (.bind endpoint) rfl (by rw [idle]; rfl) (by simp [Process.startBind, Process.setCall, Waits])
      (by simp [Process.write, Process.setCall, Process.startBind]) rfl rfl
  | nextUnbind server endpoint remaining inside =>
    exact begun (.unbind endpoint) rfl (by rw [inside]; rfl) (by simp [Process.setCall, Waits])
      (by simp [Process.write, Process.setCall]) rfl rfl
  | connected index rest inside answer =>
    exact ended (.socketIndex index) rest answer (by rw [inside]; trivial) (by simp [Process.setCall, blocked])
      (by simp [Process.setCall]) rfl (by simp [got])
  | bound factories index rest inside answer =>
    exact ended (.socketIndex index) rest answer (by rw [inside]; trivial) (by simp [Process.setCall, blocked])
      (by simp [Process.setCall]) rfl (by simp [got])
  | unbound rest inside answer =>
    exact ended .unbound rest answer (by rw [inside]; trivial) (by simp [Process.setCall, blocked])
      (by simp [Process.setCall]) rfl (by simp [got])
  | unboundNext server remaining rest inside answer =>
    exact ended .unbound rest answer (by rw [inside]; trivial) (by simp [Process.setCall, blocked])
      (by simp [Process.setCall]) rfl (by simp [got])
  | request info service method payload handler timeoutMs idle =>
    exact .frame (.inr ⟨by rw [idle]; rfl, by simp [Process.setCall, blocked]⟩) rfl rfl outbox
      marked unasked unsent rfl
  | requested info ctrl data inside =>
    exact .frame (.inr ⟨by rw [inside]; rfl, by simp [Process.setCall, blocked]⟩)
      (unread_write (by simp [blocks])) rfl outbox marked unasked unsent rfl
  | thrown info ctrl data inside =>
    exact .frame (.inr ⟨by rw [inside]; rfl, by simp [Process.setCall, blocked]⟩) rfl rfl outbox
      marked unasked unsent rfl
  | insertFactories routerIndex factories inside =>
    exact .frame (.inr ⟨by rw [inside]; rfl, by simp [Process.setCall, blocked]⟩) rfl rfl outbox
      marked unasked unsent rfl
  | serverDestroyed server inside =>
    exact .frame (.inr ⟨by rw [inside]; rfl, by simp [Process.setCall, blocked]⟩) rfl rfl outbox
      marked unasked unsent rfl
  | destroyServer server endpoints idle alive =>
    exact .frame (.inr ⟨by rw [idle]; rfl, by simp [Process.setCall, blocked]⟩) rfl rfl outbox
      marked unasked unsent rfl
  | alreadyBound | newServer | registerFactory =>
    exact .frame (.inl rfl) rfl rfl outbox marked unasked unsent rfl
  | add closure idle =>
    exact .frame (.inl rfl) (unread_write (by simp [blocks])) rfl outbox marked unasked unsent rfl
  | registerService info name svc idle =>
    exact .frame (.inl rfl) (unread_write (by simp [blocks])) rfl outbox marked unasked unsent rfl
  | reply action info data idle made =>
    exact .frame (.inl rfl) (unread_write (by simp [blocks])) rfl outbox marked unasked unsent rfl

theorem leaving_ran {thread : Thread} {ran : List Thread} {marked : List (Nat × Thread)}
    (answered : ran.Perm (marked.map Prod.snd)) :
    leaving thread (ran.map (fun sender => .reply sender .unbound)) =
      (deleting thread marked).map (fun _ => .unbound) := by
  have left : leaving thread (ran.map (fun sender => .reply sender .unbound)) =
      List.replicate (ran.count thread) .unbound := by
    clear answered
    induction ran with
    | nil => rfl
    | cons sender rest ih =>
      by_cases here : sender = thread
      · subst here
        simpa [leaving, List.replicate_succ] using ih
      · simpa [leaving, here] using ih
  have right : (deleting thread marked).map (fun _ => Reply.unbound) =
      List.replicate ((marked.map Prod.snd).count thread) .unbound := by
    clear answered left
    induction marked with
    | nil => rfl
    | cons entry rest ih =>
      by_cases here : entry.2 = thread
      · simpa [deleting, here, List.replicate_succ] using ih
      · simpa [deleting, here] using ih
  rw [left, right, answered.count_eq]

theorem loopTop_flight {thread : Thread} (sound : Sound (ownership process.broker))
    (performed : process.broker.outbox = []) (few : (flights process thread).length ≤ 1) :
    FlightStep process { process with broker := process.broker.loopTop.1 }
      (process.broker.loopTop.2 ++ queuedEvents process.broker.loopTop.1.outbox) thread := by
  have source : ∀ event ∈ process.broker.loopTop.2 ++ queuedEvents process.broker.loopTop.1.outbox,
      origin event = .broker ∨ origin event = .queued := by
    intro event member
    rcases List.mem_append.mp member with left | right
    · exact .inl (loopTop_origin _ event left)
    · exact .inr (queuedEvents_origin event right)
  have unasked := asked_other thread (fun event member handled => by
    rcases source event member with same | same <;> simp [same] at handled)
  have ungot := got_other thread (fun event member handled => by
    rcases source event member with same | same <;> simp [same] at handled)
  have queuedUnsent : ∀ outbox, sent thread (queuedEvents outbox) = [] := fun outbox =>
    sent_other thread (fun event member => by rw [queuedEvents_origin event member]; decide)
  rcases sound.loopTop_cases with ⟨same, _⟩ | ⟨same, _⟩ | ⟨_, rebuilt, removed, ran, spec, same⟩
  · rw [same] at unasked ungot ⊢
    exact .frame (.inl rfl) rfl rfl rfl rfl unasked (by simpa using queuedUnsent _) ungot
  · rw [same] at unasked ungot ⊢
    exact .frame (.inl rfl) rfl rfl rfl rfl unasked (by simpa using queuedUnsent _) ungot
  · rw [same] at unasked ungot ⊢
    have unsent : sent thread (removed.map (fun pair => Event.socketClosed pair.1) ++ queuedEvents
        (({ process.broker with reactor := rebuilt, phase := .timers } : Broker).emit
          (ran.map (fun sender => .reply sender .unbound))).outbox) = [] := by
      rw [sent_append, queuedUnsent, List.append_nil]
      simp [sent]
    have empty : leaving thread process.broker.outbox = [] := by rw [performed]; rfl
    have outbox : leaving thread (({ process.broker with
        reactor := rebuilt, phase := .timers } : Broker).emit
          (ran.map (fun sender => .reply sender .unbound))).outbox =
        (deleting thread process.broker.reactor.delSockets).map (fun _ => .unbound) := by
      rw [← leaving_ran spec.answered]
      simp [Broker.emit, performed]
    have unmarked : deleting thread rebuilt.delSockets = [] := by rw [spec.emptied]; rfl
    cases shape : deleting thread process.broker.reactor.delSockets with
    | nil =>
      rw [shape] at outbox
      exact .frame (.inl rfl) rfl rfl (outbox.trans empty.symm) (unmarked.trans shape.symm) unasked
        unsent ungot
    | cons socket rest =>
      rw [shape] at outbox
      simp only [flights, shape, List.length_append, List.length_map, List.length_cons] at few
      have replies : process.replies thread = [] := List.length_eq_zero_iff.mp (by omega)
      have alone : rest = [] := List.length_eq_zero_iff.mp (by omega)
      have pipes : unread process thread = [] := List.length_eq_zero_iff.mp (by omega)
      subst alone
      refine .deleted socket rfl ?_ ?_ unasked unsent rfl ungot (List.mem_append_left _ ?_)
      · simp [flights, replies, empty, shape, pipes]
      · change (process.replies thread).map Flight.answered ++ _ ++ (deleting thread
          rebuilt.delSockets).map Flight.deleting ++ (unread process thread).map Flight.unread = _
        rw [replies, outbox, unmarked, pipes]
        rfl
      · have entry : (socket, thread) ∈ process.broker.reactor.delSockets := by
          have member : socket ∈ deleting thread process.broker.reactor.delSockets := by simp [shape]
          obtain ⟨entry, inside, shown⟩ := List.mem_filterMap.mp member
          split at shown
          · next here =>
            cases shown
            rw [← here]
            exact inside
          · cases shown
        have key : socket ∈ process.broker.reactor.delSockets.map Prod.fst :=
          List.mem_map.mpr ⟨_, entry, rfl⟩
        obtain ⟨index, owned⟩ := sound.marked socket key
        rcases List.mem_append.mp (spec.sockets.mem_iff.mpr owned) with kept | gone
        · exact absurd key (spec.kept _ kept)
        · exact List.mem_map.mpr ⟨_, gone, rfl⟩

theorem FlightStep.silent {thread : Thread} (performed : process.broker.outbox = [])
    (result : Broker × List Event) (pipes : Thread → List Command)
    (same : (pipes thread).filter blocks = unread process thread)
    (source : ∀ event ∈ emitted, origin event = .broker ∨ origin event = .queued ∨
      ∃ sender cmd, event = .handled sender cmd ∧ (sender = thread → blocks cmd = false))
    (unsent : ∀ receiver body, .replied receiver body ∉ emitted)
    (silent : ∀ body, .reply thread body ∉ result.1.outbox)
    (marked : deleting thread result.1.reactor.delSockets =
      deleting thread process.broker.reactor.delSockets) :
    FlightStep process { process with broker := result.1, pipes := pipes } emitted thread := by
  refine .frame (.inl rfl) same rfl ?_ marked ?_ ?_ ?_
  · rw [leaving_other silent, performed]
    rfl
  · refine List.filterMap_eq_nil_iff.mpr (fun event member => ?_)
    rcases source event member with other | other | ⟨sender, cmd, rfl, plain⟩
    · cases event <;> simp_all [origin]
    · cases event <;> simp_all [origin]
    · refine if_neg (fun both => ?_)
      rw [plain both.1] at both
      simp at both
  · refine List.filterMap_eq_nil_iff.mpr (fun event member => ?_)
    cases event with
    | replied receiver body => exact absurd member (unsent receiver body)
    | _ => rfl
  · refine got_other thread (fun event member other => ?_)
    rcases source event member with same | same | ⟨sender, cmd, rfl, _⟩
    · simp [same] at other
    · simp [same] at other
    · simp [origin] at other

theorem handleCommand_replies (cfg : Config) (broker : Broker) (performed : broker.outbox = [])
    (oracle : Oracle)
    (sender : Thread) (cmd : Command) :
    (∀ receiver body,
      .reply receiver body ∈ (broker.handleCommand cfg oracle sender cmd).1.outbox →
        receiver = sender ∧ blocks cmd = true) ∧
    (∀ receiver, receiver ≠ sender ∨ blocks cmd = false →
      deleting receiver (broker.handleCommand cfg oracle sender cmd).1.reactor.delSockets =
        deleting receiver broker.reactor.delSockets) ∧
    ∀ receiver body, .replied receiver body ∉ (broker.handleCommand cfg oracle sender cmd).2 := by
  cases cmd with
  | quit =>
    simp [Broker.handleCommand, performed, Reactor.setShouldQuit]
  | runClosure | registerSvc => simp [Broker.handleCommand, Broker.emit, performed]
  | connect endpoint =>
    simp only [Broker.handleCommand, Broker.handleConnectCommand]
    split <;> simp [Broker.emit, Broker.fault, performed, blocks, Reactor.addSocket]
  | bind endpoint =>
    simp only [Broker.handleCommand, Broker.handleBindCommand]
    split <;> simp [Broker.emit, Broker.fault, performed, blocks, Reactor.addSocket]
  | unbind endpoint =>
    simp only [Broker.handleCommand, Broker.handleUnbindCommand]
    split
    · simp [performed]
    · next socket found =>
      simp only [performed, List.not_mem_nil, false_implies, implies_true, not_false_eq_true,
        true_and, and_true]
      intro receiver apart
      rcases apart with other | plain
      · simp [Reactor.delSocket, deleting_snoc, other.symm]
      · cases plain
  | request info ctrl data =>
    obtain ⟨closures, same⟩ := sendRequest_timers cfg broker oracle info ctrl data
    simp only [Broker.handleCommand, same]
    split <;> simp [Broker.emit, Broker.fault, performed]
  | reply info data =>
    simp only [Broker.handleCommand, Broker.forwardTo]
    split <;> simp [Broker.emit, Broker.fault, performed]

theorem command_flight {thread sender : Thread} {i : Nat} {oracle : Oracle} {cmd : Command}
    {rest : List Command} (performed : process.broker.outbox = [])
    (unreadCmd : process.pipes sender = cmd :: rest)
    (few : (flights process thread).length ≤ 1) (result : Broker × List Event)
    (same : { process.broker with phase := .dispatch (i + 1) }.handleCommand cfg oracle sender cmd
      = result) :
    FlightStep process
      { process with pipes := Function.update process.pipes sender rest, broker := result.1 }
      (.handled sender cmd :: (result.2 ++ queuedEvents result.1.outbox)) thread := by
  have spec := handleCommand_replies cfg { process.broker with phase := .dispatch (i + 1) } performed
    oracle sender cmd
  rw [same] at spec
  obtain ⟨replies, marked, unsent⟩ := spec
  have brokerEvents : ∀ event ∈ result.2, origin event = .broker :=
    same ▸ handleCommand_origin _ _ _ _ _
  have unreplied : ∀ receiver body, .replied receiver body ∉
      (Event.handled sender cmd :: (result.2 ++ queuedEvents result.1.outbox)) := by
    intro receiver body member
    rcases List.mem_cons.mp member with first | later
    · cases first
    · rcases List.mem_append.mp later with left | right
      · exact unsent receiver body left
      · simpa [origin] using queuedEvents_origin _ right
  by_cases mine : thread = sender ∧ blocks cmd = true
  · obtain ⟨rfl, waiting⟩ := mine
    have pipe : unread process thread = cmd :: rest.filter blocks := by
      simp [unread, unreadCmd, waiting]
    simp only [flights, pipe, List.length_append, List.length_map, List.length_cons] at few
    have none_replies : process.replies thread = [] := List.length_eq_zero_iff.mp (by omega)
    have none_marked : deleting thread process.broker.reactor.delSockets = [] :=
      List.length_eq_zero_iff.mp (by omega)
    have none_unread : rest.filter blocks = [] := List.length_eq_zero_iff.mp (by omega)
    have only : flights process thread = [.unread cmd] := by
      simp [flights, none_replies, performed, leaving, none_marked, pipe, none_unread]
    have asks : asked thread (.handled thread cmd :: (result.2 ++ queuedEvents result.1.outbox)) =
        [cmd] := by
      have others : asked thread (result.2 ++ queuedEvents result.1.outbox) = [] := by
        refine asked_other thread (fun event member => ?_)
        rcases List.mem_append.mp member with left | right
        · rw [brokerEvents event left]; decide
        · rw [queuedEvents_origin event right]; decide
      rw [← List.singleton_append, asked_append, others]
      simp [asked, waiting]
    have none_sent : sent thread (.handled thread cmd ::
        (result.2 ++ queuedEvents result.1.outbox)) = [] := by
      refine List.filterMap_eq_nil_iff.mpr (fun event member => ?_)
      cases event with
      | replied receiver body => exact absurd member (unreplied receiver body)
      | _ => rfl
    have none_got : got thread (.handled thread cmd ::
        (result.2 ++ queuedEvents result.1.outbox)) = [] := by
      refine got_other thread (fun event member => ?_)
      rcases List.mem_cons.mp member with rfl | later
      · simp [origin]
      · rcases List.mem_append.mp later with left | right
        · rw [brokerEvents event left]; decide
        · rw [queuedEvents_origin event right]; decide
    have becomes : ∀ fate : Option Flight,
        (leaving thread result.1.outbox).map Flight.answered ++
          (deleting thread result.1.reactor.delSockets).map Flight.deleting = fate.toList →
        flights { process with
          pipes := Function.update process.pipes thread rest, broker := result.1 } thread =
            fate.toList := by
      intro fate parts
      simp only [flights, unread, Function.update_self, none_unread, none_replies, List.map_nil,
        List.nil_append, List.append_nil]
      exact parts
    cases cmd with
    | connect endpoint =>
      simp only [Broker.handleCommand, Broker.handleConnectCommand] at same
      split at same
      · subst same
        refine .reads _ (some (.answered (.socketIndex process.broker.dealerSockets.length))) rfl only
          (becomes _ ?_) asks none_sent rfl none_got (.inr (.inl ⟨endpoint, _, rfl, rfl⟩))
        simp [Broker.emit, performed, leaving, Reactor.addSocket, none_marked]
      · subst same
        refine .reads _ none rfl only (becomes _ ?_) asks none_sent rfl none_got
          (.inl ⟨rfl, .inl rfl⟩)
        simp [Broker.fault, performed, leaving, none_marked]
    | bind endpoint =>
      simp only [Broker.handleCommand, Broker.handleBindCommand] at same
      split at same
      · subst same
        refine .reads _ (some (.answered (.socketIndex process.broker.routerSockets.length))) rfl only
          (becomes _ ?_) asks none_sent rfl none_got
          (.inr (.inr (.inl ⟨endpoint, _, rfl, rfl, by simp⟩)))
        simp [Broker.emit, performed, leaving, Reactor.addSocket, none_marked]
      · subst same
        refine .reads _ none rfl only (becomes _ ?_) asks none_sent rfl none_got
          (.inl ⟨rfl, .inl rfl⟩)
        simp [Broker.fault, performed, leaving, none_marked]
    | unbind endpoint =>
      simp only [Broker.handleCommand, Broker.handleUnbindCommand] at same
      split at same
      · next missing =>
        subst same
        refine .reads _ none rfl only (becomes _ ?_) asks none_sent rfl none_got
          (.inl ⟨rfl, .inr ⟨endpoint, rfl, missing⟩⟩)
        simp [performed, leaving, none_marked]
      · next socket found =>
        subst same
        refine .reads _ (some (.deleting socket)) rfl only (becomes _ ?_) asks none_sent rfl none_got
          (.inr (.inr (.inr ⟨endpoint, socket, rfl, rfl, found⟩)))
        simp [performed, leaving, Reactor.delSocket, deleting_snoc, none_marked]
    | request | reply | runClosure | registerSvc | quit => cases waiting
  · have apart : thread ≠ sender ∨ blocks cmd = false := by
      by_cases here : thread = sender
      · exact .inr (by simpa [here] using mine)
      · exact .inl here
    refine .silent performed result _ ?_ ?_ unreplied ?_ (marked thread apart)
    · by_cases here : thread = sender
      · subst here
        rcases apart with other | plain
        · exact absurd rfl other
        · simp [unread, unreadCmd, plain]
      · simp [unread, Function.update_of_ne here]
    · intro event member
      rcases List.mem_cons.mp member with rfl | later
      · refine .inr (.inr ⟨sender, cmd, rfl, fun here => ?_⟩)
        exact apart.resolve_left (fun other => other here.symm)
      · rcases List.mem_append.mp later with left | right
        · exact .inl (brokerEvents event left)
        · exact .inr (.inl (queuedEvents_origin event right))
    · intro body member
      obtain ⟨here, waiting⟩ := replies thread body member
      rcases apart with other | plain
      · exact other here
      · rw [plain] at waiting
        cases waiting

theorem flight_step (sound : process.broker.phase ≠ .faulted → Sound (ownership process.broker))
    {action : Action} (move : Move cfg process action after emitted) {thread : Thread}
    (few : (flights process thread).length ≤ 1) : FlightStep process after emitted thread := by
  have queuedOrBroker : ∀ result : Broker × List Event, (∀ event ∈ result.2, origin event = .broker) →
      ∀ event ∈ result.2 ++ queuedEvents result.1.outbox,
        origin event = .broker ∨ origin event = .queued ∨
          ∃ sender cmd, event = .handled sender cmd ∧ (sender = thread → blocks cmd = false) := by
    intro result brokerEvents event member
    rcases List.mem_append.mp member with left | right
    · exact .inl (brokerEvents event left)
    · exact .inr (.inl (queuedEvents_origin event right))
  have unqueued : ∀ outbox receiver body, .replied receiver body ∉ queuedEvents outbox := by
    intro outbox receiver body member
    simpa [origin] using queuedEvents_origin _ member
  cases move with
  | thread actor action after emitted running move =>
    by_cases here : thread = actor
    · subst here
      exact threadMove_flight few move
    · obtain ⟨calls, pipes, replies, unread⟩ := threadMove_other here move
      have frame := threadMove_frame move
      refine .frame (.inl calls) ?_ replies (by rw [frame.1]) (by rw [frame.1]) ?_ ?_ unread
      · simp [BlockingCalls.unread, pipes]
      · exact asked_other thread (fun event member => by rw [frame.2.2.2.2 event member]; decide)
      · exact sent_other thread (fun event member => by rw [frame.2.2.2.2 event member]; decide)
  | loopTop phase performed => exact loopTop_flight (sound (by simp [phase])) performed few
  | timers now phase performed =>
    refine .silent performed _ process.pipes rfl (queuedOrBroker _ (runTimers_origin _ _ _)) ?_ ?_ rfl
    · intro receiver body member
      rcases List.mem_append.mp member with left | right
      · simp [Broker.runTimers] at left
      · exact unqueued _ receiver body right
    · simp [Broker.runTimers, Broker.emit, performed]
  | poll outcome phase performed =>
    refine .silent performed _ process.pipes rfl (queuedOrBroker _ (afterPoll_origin _ _)) ?_ ?_ ?_
    · intro receiver body member
      rcases List.mem_append.mp member with left | right
      · cases outcome <;> simp [Broker.afterPoll, Broker.fault] at left
      · exact unqueued _ receiver body right
    · cases outcome <;> simp [Broker.afterPoll, Broker.fault, performed]
    · cases outcome <;> rfl
  | finished | quiet | outOfRange | joinWorkers =>
    exact .frame (.inl rfl) rfl rfl rfl rfl (by simp [asked]) (by simp [sent]) (by simp [got])
  | command i sender oracle cmd rest phase performed slot unread result same =>
    exact command_flight performed unread few result same
  | message i callback frames phase performed slot network nonempty result same =>
    have books : Sound (ownership { process.broker with phase := .dispatch (i + 1) }) :=
      sound (by simp [phase])
    have cases := books.receive_cases cfg frames slot network
    rw [same] at cases
    refine .silent performed result process.pipes rfl
      (queuedOrBroker result (same ▸ receive_origin _ _ _ _)) ?_ ?_ ?_
    · intro receiver body member
      rcases List.mem_append.mp member with left | right
      · rcases cases with ⟨info, data, rfl⟩ | rfl
        · unfold Broker.handleSocket at left
          split at left <;> simp at left
        · simp at left
      · exact unqueued _ receiver body right
    · rcases cases with ⟨info, data, rfl⟩ | rfl
      · unfold Broker.handleSocket
        split <;> simp [Broker.emit, performed]
      · simp [performed]
    · rcases cases with ⟨info, data, rfl⟩ | rfl
      · unfold Broker.handleSocket
        split <;> rfl
      · rfl
  | flush output rest live unperformed =>
    cases output with
    | push index cmd =>
      refine .frame (.inl rfl) rfl rfl ?_ rfl rfl rfl rfl
      rw [unperformed]
      rfl
    | send info socket frames cause =>
      simp only [Process.perform, Broker.fault]
      split
      · refine .frame (.inl rfl) rfl rfl ?_ rfl rfl rfl rfl
        rw [unperformed]
        rfl
      · refine .frame (.inl rfl) rfl rfl ?_ rfl rfl rfl rfl
        rw [unperformed]
        rfl
    | reply receiver body =>
      by_cases here : receiver = thread
      · subst here
        refine .still (.inl rfl) ?_ rfl ?_ rfl
        · simp [flights, Process.perform, Process.setOutbox, unperformed, leaving, unread]
        · simp [Process.perform, Process.setOutbox, sent]
      · have apart : thread ≠ receiver := fun same => here same.symm
        refine .frame (.inl rfl) rfl ?_ ?_ rfl rfl ?_ rfl
        · simp [Process.perform, Process.setOutbox, Function.update_of_ne apart]
        · simp [Process.perform, Process.setOutbox, unperformed, leaving, here]
        · simp [Process.perform, sent, here]
  | worker index cmd rest legal running idle unread result same =>
    have silent : ∀ event ∈ result.events, origin event = .worker := same ▸ exec_origin _ _ _ _ _ _
    have source : ∀ event ∈ Event.popped index cmd :: result.events,
        origin event = .popped ∨ origin event = .worker := by
      intro event member
      rcases List.mem_cons.mp member with rfl | later
      · exact .inl rfl
      · exact .inr (silent event later)
    refine .frame (.inl rfl) ?_ rfl rfl rfl ?_ ?_ ?_
    · refine unread_write (fun written member => ?_)
      obtain ⟨info, data, rfl⟩ := exec_writes _ _ _ _ _ (same ▸ member)
      rfl
    · exact asked_other thread (fun event member => by
        rcases source event member with same | same <;> rw [same] <;> decide)
    · exact sent_other thread (fun event member => by
        rcases source event member with same | same <;> rw [same] <;> decide)
    · exact got_other thread (fun event member => by
        rcases source event member with same | same <;> rw [same] <;> decide)
  | release actor running idle =>
    exact .frame (.inl rfl) (unread_write (by simp [blocks])) rfl rfl rfl rfl rfl rfl
  | joinBroker joining exited performed =>
    refine .frame (.inl rfl) rfl rfl rfl rfl ?_ ?_ ?_
    · exact asked_other thread (by simp [origin])
    · exact sent_other thread (by simp [origin])
    · exact got_other thread (by simp [origin])

theorem Waits.blocked {call : Call} {flight : Flight} (waits : Waits call flight) :
    BlockingCalls.blocked call = true := by
  cases call <;> first | rfl | cases waits

/-- At most one thing is under way for a thread, and its call waits for that. -/
def Matched (process : Process) : Prop :=
  ∀ thread, (flights process thread).length ≤ 1 ∧
    ∀ flight ∈ flights process thread, Waits (process.calls thread) flight

theorem Matched.none_idle (matched : Matched process) {thread : Thread}
    (idle : blocked (process.calls thread) = false) : flights process thread = [] := by
  refine List.eq_nil_iff_forall_not_mem.mpr (fun flight member => ?_)
  rw [((matched thread).2 flight member).blocked] at idle
  cases idle

theorem Waits.fate {call : Call} {cmd : Command} {flight : Flight} (waits : Waits call (.unread cmd))
    (outcome : (∃ endpoint index, cmd = .connect endpoint ∧ flight = .answered (.socketIndex index)) ∨
      (∃ endpoint index, cmd = .bind endpoint ∧ flight = .answered (.socketIndex index)) ∨
      ∃ endpoint socket, cmd = .unbind endpoint ∧ flight = .deleting socket) : Waits call flight := by
  rcases outcome with ⟨_, _, rfl, rfl⟩ | ⟨_, _, rfl, rfl⟩ | ⟨_, _, rfl, rfl⟩ <;>
    cases call <;> trivial

theorem matched_of_run (run : Run (machine cfg) allowed events process) : Matched process := by
  refine Steps.invariant (fun _ process => Matched process) ?_ ?_ run
  · intro thread
    exact ⟨Nat.zero_le 1, fun flight member => by cases member⟩
  · intro events process action emitted after earlier matched _ fired thread
    have one := matched thread
    cases flight_step (sound_of_run earlier) (step_move fired) one.1 with
    | still calls same =>
      rw [same]
      rcases calls with kept | ⟨idle, _⟩
      · rw [kept]
        exact one
      · rw [matched.none_idle idle]
        exact ⟨Nat.zero_le 1, fun flight member => by cases member⟩
    | begins cmd idle waits grown =>
      rw [grown, matched.none_idle idle]
      exact ⟨Nat.le_refl 1, fun flight member => by rw [List.mem_singleton.mp member]; exact waits⟩
    | ends body waits idle only none =>
      rw [none]
      exact ⟨Nat.zero_le 1, fun flight member => by cases member⟩
    | reads cmd fate calls only becomes asks unsent replies unread outcome =>
      have waits := one.2 (.unread cmd) (by rw [only]; exact List.mem_singleton_self _)
      rw [becomes, calls]
      cases fate with
      | none => exact ⟨Nat.zero_le 1, fun flight member => by cases member⟩
      | some flight =>
        refine ⟨Nat.le_refl 1, fun other member => ?_⟩
        rw [List.mem_singleton.mp member]
        refine waits.fate ?_
        rcases outcome with ⟨absent, _⟩ | ⟨endpoint, index, rfl, same⟩ |
          ⟨endpoint, index, rfl, same, _⟩ | ⟨endpoint, socket, rfl, same, _⟩
        · cases absent
        · exact .inl ⟨endpoint, index, rfl, Option.some.inj same⟩
        · exact .inr (.inl ⟨endpoint, index, rfl, Option.some.inj same⟩)
        · exact .inr (.inr ⟨endpoint, socket, rfl, Option.some.inj same⟩)
    | deleted socket calls only becomes =>
      have waits := one.2 (.deleting socket) (by rw [only]; exact List.mem_singleton_self _)
      rw [becomes, calls]
      refine ⟨Nat.le_refl 1, fun other member => ?_⟩
      rw [List.mem_singleton.mp member]
      revert waits
      cases process.calls thread <;> exact id

end Rpcz.BlockingCalls
