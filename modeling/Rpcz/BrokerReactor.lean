import Rpcz.BrokerSockets
import Rpcz.DispatchRounds
import Rpcz.HeaderCodec

/-!
The broker's thread runs `reactor::loop`. The process takes a callback of the broker as
one step; in the loop the callback first receives its message and then asks the reactor for
what it needs. Every step of the process is matched by turns of the loop that lead to
the same reactor.
-/

namespace Rpcz.BrokerReactor
open Automaton Message EventLog ReactorLoop DeletionLoop WorkerThread BrokerThread ProcessModel Moves
  History BrokerSockets
open DispatchRounds (deedsOf deedsOf_append Kept kept_of_run)
open ReactorRun (Loop Place Request Proper)

abbrev BrokerLoop := Loop SocketCallback Thread TimeoutClosure

abbrev Turns := List (ReactorRun.Event SocketCallback Thread TimeoutClosure)

abbrev reactorMachine := ReactorRun.machine Thread TimeoutClosure SocketCallback.frontend

def placeOf : Phase → Place
  | .top => .top
  | .timers => .timers
  | .poll => .poll
  | .dispatch i => .dispatch i
  | .exited => .returned
  | .faulted => .faulted

inductive Effect where
  | fired (timer : TimeoutClosure)
  | closed (socket : Nat)
deriving DecidableEq

def effectsIn (events : List Event) : List Effect :=
  events.filterMap fun
    | .timerFired eventId workerIndex => some (.fired ⟨eventId, workerIndex⟩)
    | .socketClosed socket => some (.closed socket)
    | _ => none

def effectsOf (turns : Turns) : List Effect :=
  turns.filterMap fun
    | .timerRun timer => some (.fired timer)
    | .deed (.deleteSocket socket) => some (.closed socket)
    | _ => none

/-- The threads that were told that their `unbind` is done. -/
def answersIn (events : List Event) : List Thread :=
  events.filterMap fun
    | .replied receiver .unbound => some receiver
    | _ => none

def answersDue (outbox : List Output) : List Thread :=
  outbox.filterMap fun
    | .reply receiver .unbound => some receiver
    | _ => none

/-- The deletion callbacks are `handle_socket_deleted` of these threads. -/
def answersOf (turns : Turns) : List Thread := (deletionsRun (deedsOf turns)).map Prod.snd

/-- The loop stands where the broker stands, with the same reactor and the same history.
A broker that was stopped inside a callback does not go on. -/
structure Mirrors (events : List Event) (process : Process) (turns : Turns) (loop : BrokerLoop) :
    Prop where
  reactor : loop.reactor = process.broker.reactor
  place : process.broker.phase ≠ .faulted → loop.place = placeOf process.broker.phase
  nextSocket : process.broker.phase ≠ .faulted → loop.nextSocket = process.broker.nextSocket
  effects : effectsOf turns = effectsIn events
  answers : answersOf turns = answersIn events ++ answersDue process.broker.outbox

section Logs
variable (first second : List Event) (early late : Turns)

@[simp] theorem effectsIn_append : effectsIn (first ++ second) = effectsIn first ++ effectsIn second :=
  List.filterMap_append ..

@[simp] theorem effectsOf_append : effectsOf (early ++ late) = effectsOf early ++ effectsOf late :=
  List.filterMap_append ..

@[simp] theorem answersIn_append : answersIn (first ++ second) = answersIn first ++ answersIn second :=
  List.filterMap_append ..

@[simp] theorem answersOf_append : answersOf (early ++ late) = answersOf early ++ answersOf late := by
  rw [answersOf, deedsOf_append, deletionsRun_append, List.map_append]
  rfl

end Logs

theorem log_other (events : List Event) (elsewhere : ∀ event ∈ events, origin event ≠ .broker) :
    effectsIn events = [] ∧ answersIn events = [] := by
  constructor
  · refine filterMap_other .broker (fun event other => ?_) elsewhere
    cases event <;> simp_all [origin]
  · refine filterMap_other .broker (fun event other => ?_) elsewhere
    cases event <;> simp_all [origin]

def Silent (turns : Turns) : Prop := effectsOf turns = [] ∧ answersOf turns = []

section Match
variable {events emitted : List Event} {process after : Process} {turns more : Turns}
  {loop next : BrokerLoop}

theorem Silent.append (one : Silent turns) (two : Silent more) : Silent (turns ++ more) := by
  constructor
  · rw [effectsOf_append, one.1, two.1, List.append_nil]
  · rw [answersOf_append, one.2, two.2, List.append_nil]

theorem Mirrors.aside (mirrors : Mirrors events process turns loop)
    (same : after.broker = process.broker)
    (elsewhere : ∀ event ∈ emitted, origin event ≠ .broker) :
    Mirrors (events ++ emitted) after turns loop where
  reactor := by rw [same, mirrors.reactor]
  place := by rw [same]; exact mirrors.place
  nextSocket := by rw [same]; exact mirrors.nextSocket
  effects := by rw [effectsIn_append, (log_other _ elsewhere).1, List.append_nil, mirrors.effects]
  answers := by
    rw [answersIn_append, (log_other _ elsewhere).2, List.append_nil, same, mirrors.answers]

structure Follows (process : Process) (emitted : List Event) (broker : Broker) (more : Turns)
    (next : BrokerLoop) : Prop where
  reactor : next.reactor = broker.reactor
  place : broker.phase ≠ .faulted → next.place = placeOf broker.phase
  nextSocket : broker.phase ≠ .faulted → next.nextSocket = broker.nextSocket
  effects : effectsOf more = effectsIn emitted
  answers : answersDue process.broker.outbox ++ answersOf more =
    answersIn emitted ++ answersDue broker.outbox

theorem Mirrors.follow (mirrors : Mirrors events process turns loop)
    (follows : Follows process emitted after.broker more next) :
    Mirrors (events ++ emitted) after (turns ++ more) next where
  reactor := follows.reactor
  place := follows.place
  nextSocket := follows.nextSocket
  effects := by rw [effectsOf_append, effectsIn_append, mirrors.effects, follows.effects]
  answers := by
    rw [answersOf_append, mirrors.answers, List.append_assoc, follows.answers, answersIn_append,
      List.append_assoc]

end Match

/-! ## Turns of the loop -/

section Turns
variable {loop next : BrokerLoop} {more : Turns}

structure Unmoved (loop next : BrokerLoop) : Prop where
  reactor : next.reactor = loop.reactor
  nextSocket : next.nextSocket = loop.nextSocket
  requested : next.requested = loop.requested

theorem arrivals (loop : BrokerLoop) (sockets : List Nat) :
    ∃ inbox, Steps reactorMachine Proper loop [] { loop with inbox := inbox } ∧
      ∀ socket ∈ sockets, 0 < inbox socket := by
  induction sockets with
  | nil => exact ⟨loop.inbox, .refl, by simp⟩
  | cons socket rest ih =>
    obtain ⟨inbox, steps, waiting⟩ := ih
    refine ⟨Function.update inbox socket (inbox socket + 1), ?_, ?_⟩
    · have arrived : reactorMachine.step { loop with inbox := inbox } (.arrive socket) =
          some ({ loop with inbox := Function.update inbox socket (inbox socket + 1) }, []) := rfl
      exact steps.next (show Proper _ (.arrive socket) from trivial) arrived
    · intro other member
      by_cases here : other = socket
      · subst here
        rw [Function.update_self]
        exact Nat.succ_pos _
      · rw [Function.update_of_ne here]
        exact waiting other ((List.mem_cons.mp member).resolve_left here)

/-- A list of flags of any length, cut or filled up to the poll items. -/
def fitted (loop : BrokerLoop) (flags : List Bool) : List Bool :=
  (List.range loop.reactor.pollItems.length).map (fun i => flags.getD i false)

theorem fitted_setRevents (loop : BrokerLoop) (flags : List Bool) :
    loop.reactor.setRevents (fitted loop flags) = loop.reactor.setRevents flags := by
  have items : loop.reactor.pollItems.mapIdx
      (fun i item => { item with pollin := (fitted loop flags).getD i false }) =
      loop.reactor.pollItems.mapIdx (fun i item => { item with pollin := flags.getD i false }) := by
    apply List.ext_getElem?
    intro i
    rw [List.getElem?_mapIdx, List.getElem?_mapIdx]
    cases found : loop.reactor.pollItems[i]? with
    | none => rfl
    | some item =>
      have inside := (List.getElem?_eq_some_iff.mp found).1
      simp [fitted, List.getD, List.getElem?_range inside]
  rw [Reactor.setRevents, items]
  rfl

theorem poll_ready (here : loop.place = .poll) {flags : List Bool}
    (reported : loop.reports flags = true) : reactorMachine.step loop (.poll (.ready flags)) =
      some ({ loop with reactor := loop.reactor.setRevents flags, place := .dispatch 0 },
        [.polled (.ready flags)]) := by
  simp [ReactorRun.machine, Loop.step, Loop.afterPoll, here, reported]

theorem poll_steps (here : loop.place = .poll) (flags : List Bool) :
    ∃ more next, Steps reactorMachine Proper loop more next ∧ Silent more ∧
      next.reactor = loop.reactor.setRevents flags ∧ next.place = .dispatch 0 ∧
      next.nextSocket = loop.nextSocket := by
  obtain ⟨inbox, steps, waiting⟩ := arrivals loop (loop.reactor.pollItems.map PollItem.socket)
  have reported : ({ loop with inbox := inbox } : BrokerLoop).reports (fitted loop flags) = true := by
    rw [Loop.reports, decide_eq_true_eq]
    refine ⟨by simp [fitted], ?_⟩
    intro entry member _
    exact waiting _ (List.mem_map_of_mem (List.of_mem_zip member).1)
  have ready := poll_ready (show ({ loop with inbox := inbox } : BrokerLoop).place = .poll from here)
    reported
  have polled := steps.next (show Proper _ (.poll (.ready (fitted loop flags))) from trivial) ready
  exact ⟨_, _, polled, ⟨rfl, rfl⟩, fitted_setRevents loop flags, rfl, rfl⟩

theorem callback_steps {i : Nat} {callback : SocketCallback} (here : loop.place = .dispatch i)
    (slot : loop.reactor.slot i = .ready callback) :
    ∃ more next, Steps reactorMachine Proper loop more next ∧ Silent more ∧ Unmoved loop next ∧
      next.place = .running i := by
  rw [Reactor.slot] at slot
  split at slot
  · cases slot
  · next item found =>
    split at slot
    · next flagged =>
      split at slot
      · cases slot
      · next pair held =>
        have ran : reactorMachine.step loop .dispatch =
            some ({ loop with place := .receiving i pair.1 },
              [.ran i item.socket pair.1 pair.2]) := by
          simp [ReactorRun.machine, Loop.step, Loop.dispatchAt, here, found, flagged, held]
        obtain ⟨inbox, steps, waiting⟩ := arrivals { loop with place := .receiving i pair.1 } [pair.1]
        have inhabited := waiting pair.1 (List.mem_singleton_self _)
        have received : reactorMachine.step
            { loop with place := .receiving i pair.1, inbox := inbox } .receive =
            some ({ loop with
              inbox := Function.update inbox pair.1 (inbox pair.1 - 1)
              place := .running i }, [.received pair.1]) := by
          simp [ReactorRun.machine, Loop.step, inhabited]
        have begun := Steps.single (show Proper loop .dispatch from trivial) ran
        have whole := (begun.trans steps).next (show Proper _ .receive from trivial) received
        exact ⟨_, _, whole, ⟨rfl, rfl⟩, ⟨rfl, rfl, rfl⟩, rfl⟩
    · cases slot

theorem finish_steps {i : Nat} (here : loop.place = .running i) :
    Steps reactorMachine Proper loop [] { loop with place := .dispatch (i + 1) } := by
  have finished : reactorMachine.step loop .finish =
      some ({ loop with place := .dispatch (i + 1) }, []) := by
    simp [ReactorRun.machine, Loop.step, here]
  exact .single (show Proper loop .finish from trivial) finished

def granted (loop : BrokerLoop) :
    Option (Request SocketCallback Thread TimeoutClosure) → BrokerLoop
  | none => loop
  | some request => (loop.perform request).1

theorem granted_steps {i : Nat} (here : loop.place = .running i)
    (request : Option (Request SocketCallback Thread TimeoutClosure))
    (proper : ∀ asked ∈ request, Proper loop (.request asked)) :
    ∃ more, Steps reactorMachine Proper loop more (granted loop request) ∧ Silent more ∧
      (granted loop request).place = .running i := by
  cases request with
  | none => exact ⟨[], .refl, ⟨rfl, rfl⟩, here⟩
  | some asked =>
    have performed : reactorMachine.step loop (.request asked) = some (loop.perform asked) := by
      simp [ReactorRun.machine, Loop.step, here]
    refine ⟨(loop.perform asked).2, .single (proper asked rfl) performed, ?_, ?_⟩
    · cases asked <;> exact ⟨rfl, rfl⟩
    · cases asked <;> exact here

end Turns

/-! ## Handlers of the broker -/

section Handlers
variable {cfg : Config} {broker : Broker} {loop : BrokerLoop}

def asked (cfg : Config) (broker : Broker) (oracle : Oracle) (sender : Thread) :
    Command → Option (Request SocketCallback Thread TimeoutClosure)
  | .quit => some .setShouldQuit
  | .connect _ =>
    if oracle.accepts then some (.addSocket (.dealer broker.dealerSockets.length)) else none
  | .bind _ =>
    if oracle.accepts then some (.addSocket (.router broker.routerSockets.length)) else none
  | .unbind endpoint => (broker.bindMap endpoint).map (fun socket => .delSocket socket sender)
  | .request info ctrl _ =>
    if ctrl.timeoutMs = -1 then none
    else some (.runClosureAt (oracle.now + ctrl.timeoutMs.toUInt64)
      ⟨ctrl.eventId, cfg.getWorkerIndex info⟩)
  | .reply .. | .runClosure _ | .registerSvc .. => none

/-- A handler leads the broker to the reactor of `loop`, or stops it there. -/
structure Handled (loop : BrokerLoop) (broker : Broker) (result : Broker × List Event) : Prop where
  reactor : loop.reactor = result.1.reactor
  goesOn : result.1.phase ≠ .faulted →
    result.1.phase = broker.phase ∧ loop.nextSocket = result.1.nextSocket
  due : answersDue result.1.outbox = answersDue broker.outbox
  effects : effectsIn result.2 = []
  answers : answersIn result.2 = []

theorem answersDue_append (first second : List Output) :
    answersDue (first ++ second) = answersDue first ++ answersDue second :=
  List.filterMap_append ..

theorem Handled.emits (reactor : loop.reactor = broker.reactor)
    (sockets : loop.nextSocket = broker.nextSocket) {outputs : List Output} {events : List Event}
    (due : answersDue outputs = []) (effects : effectsIn events = []) (answers : answersIn events = []) :
    Handled loop broker (broker.emit outputs, events) where
  reactor := reactor
  goesOn _ := ⟨rfl, sockets⟩
  due := by rw [Broker.emit, answersDue_append, due, List.append_nil]
  effects := effects
  answers := answers

theorem Handled.stops (reactor : loop.reactor = broker.reactor) (fault : Fault) :
    Handled loop broker (broker.fault fault) where
  reactor := reactor
  goesOn alive := absurd rfl alive
  due := rfl
  effects := rfl
  answers := rfl

theorem handleCommand_handled (cfg : Config) (broker : Broker) (reactor : loop.reactor = broker.reactor)
    (sockets : loop.nextSocket = broker.nextSocket) (oracle : Oracle) (sender : Thread)
    (cmd : Command) : Handled (granted loop (asked cfg broker oracle sender cmd)) broker
      (broker.handleCommand cfg oracle sender cmd) := by
  cases cmd with
  | quit =>
    exact ⟨by simp [granted, asked, Loop.perform, Broker.handleCommand, reactor],
      fun _ => ⟨rfl, sockets⟩, rfl, rfl, rfl⟩
  | connect endpoint =>
    simp only [asked, Broker.handleCommand, Broker.handleConnectCommand]
    split
    · constructor
      case reactor => simp [granted, Loop.perform, Broker.emit, reactor, sockets]
      case goesOn => exact fun _ => ⟨rfl, by simp [granted, Loop.perform, Broker.emit, sockets]⟩
      case due => simp [Broker.emit, answersDue]
      all_goals rfl
    · exact ⟨reactor, fun alive => absurd rfl alive, rfl, rfl, rfl⟩
  | bind endpoint =>
    simp only [asked, Broker.handleCommand, Broker.handleBindCommand]
    split
    · constructor
      case reactor => simp [granted, Loop.perform, Broker.emit, reactor, sockets]
      case goesOn => exact fun _ => ⟨rfl, by simp [granted, Loop.perform, Broker.emit, sockets]⟩
      case due => simp [Broker.emit, answersDue]
      all_goals rfl
    · exact ⟨reactor, fun alive => absurd rfl alive, rfl, rfl, rfl⟩
  | unbind endpoint =>
    simp only [asked, Broker.handleCommand, Broker.handleUnbindCommand]
    split
    · next unknown =>
      rw [unknown]
      exact ⟨reactor, fun _ => ⟨rfl, sockets⟩, rfl, rfl, rfl⟩
    · next socket found =>
      rw [found]
      exact ⟨by simp [granted, Loop.perform, reactor], fun _ => ⟨rfl, sockets⟩, rfl, rfl, rfl⟩
  | request info ctrl data =>
    simp only [asked, Broker.handleCommand, Broker.sendRequest]
    split
    · split
      · exact .stops reactor _
      · exact .emits reactor sockets rfl rfl rfl
    · have timed : (granted loop (some (.runClosureAt (oracle.now + ctrl.timeoutMs.toUInt64)
          ⟨ctrl.eventId, cfg.getWorkerIndex info⟩))).reactor =
          broker.reactor.runClosureAt (oracle.now + ctrl.timeoutMs.toUInt64)
            ⟨ctrl.eventId, cfg.getWorkerIndex info⟩ := by
        simp [granted, Loop.perform, reactor]
      split
      · exact ⟨timed, fun alive => absurd rfl alive, rfl, rfl, rfl⟩
      · refine ⟨timed, fun _ => ⟨rfl, sockets⟩, ?_, rfl, rfl⟩
        simp [Broker.emit, answersDue]
  | reply info data =>
    simp only [asked, Broker.handleCommand, Broker.forwardTo]
    split
    · exact .stops reactor _
    · exact .emits reactor sockets rfl rfl rfl
  | runClosure closure => exact .emits reactor sockets rfl rfl rfl
  | registerSvc info name svc => exact .emits reactor sockets rfl rfl rfl

theorem handleSocket_handled (reactor : loop.reactor = broker.reactor)
    (sockets : loop.nextSocket = broker.nextSocket) (info : ConnectionInfo) (frames : List Frame) :
    Handled loop broker (broker.handleSocket cfg info frames) := by
  unfold Broker.handleSocket
  split
  · exact .emits reactor sockets rfl rfl rfl
  · exact ⟨reactor, fun _ => ⟨rfl, sockets⟩, rfl, rfl, rfl⟩

theorem receive_handled (cfg : Config) (broker : Broker) (reactor : loop.reactor = broker.reactor)
    (sockets : loop.nextSocket = broker.nextSocket) (callback : SocketCallback)
    (frames : List Frame) : Handled loop broker (broker.receive cfg callback frames) := by
  cases callback with
  | frontend => exact .stops reactor _
  | dealer index =>
    simp only [Broker.receive, Broker.handleDealerSocket]
    split
    · exact .stops reactor _
    · split
      · exact .stops reactor _
      · exact handleSocket_handled reactor sockets _ _
  | router index =>
    simp only [Broker.receive, Broker.handleRouterSocket]
    split
    · exact .stops reactor _
    · split
      · exact .stops reactor _
      · split
        · exact handleSocket_handled reactor sockets _ _
        · exact ⟨reactor, fun _ => ⟨rfl, sockets⟩, rfl, rfl, rfl⟩

/-- The broker asks for the deletion of a socket only once: `bind_map_` forgets it. -/
theorem asked_proper {turns : Turns} (kept : Kept SocketCallback.frontend turns loop)
    (sound : Sound (ownership broker)) (reactor : loop.reactor = broker.reactor)
    (sockets : loop.nextSocket = broker.nextSocket) (oracle : Oracle) (sender : Thread)
    (cmd : Command) : ∀ request ∈ asked cfg broker oracle sender cmd, Proper loop (.request request) := by
  intro request member
  cases cmd with
  | unbind endpoint =>
    obtain ⟨socket, found, rfl⟩ := Option.map_eq_some_iff.mp member
    obtain ⟨⟨index, inside⟩, unmarked⟩ := sound.bound endpoint socket found
    have present : (socket, SocketCallback.router index) ∈ broker.reactor.sockets ++
        broker.reactor.closed := List.mem_append_left _ inside
    have positive : socket ≠ 0 := by
      intro zero
      have first := List.mem_append_left broker.reactor.closed (List.mem_of_getElem? sound.first)
      have same := List.inj_on_of_nodup_map sound.distinct present first zero
      cases same
    have here : (socket, SocketCallback.router index) ∈ loop.reactor.sockets := by
      rw [reactor]
      exact inside
    refine ⟨Nat.pos_of_ne_zero positive, ?_, ?_⟩
    · rw [sockets]
      exact sound.fresh _ present
    · intro requested
      rw [← kept.requested] at requested
      obtain ⟨entry, listed, same⟩ := List.mem_map.mp requested
      rcases List.mem_append.mp (kept.deletions.mem_iff.mpr listed) with ran | waiting
      · apply kept.undeleted here
        rw [kept.gone.mem_iff, ← same]
        exact List.mem_map_of_mem ran
      · apply unmarked
        rw [← same]
        rw [reactor] at waiting
        exact List.mem_map_of_mem waiting
  | _ =>
    simp only [asked] at member
    try split at member
    all_goals
      cases member <;> trivial

end Handlers

/-! ## Steps of the broker -/

section Deletions
variable {Callback Deleted : Type} {pass done : DelPass Callback Deleted} {i : Nat}

theorem walk_ran (walked : processDelFrom i pass = some done) :
    done.ran = pass.ran ++ (deletionsRun (deedsFrom i pass)).map Prod.snd := by
  induction i generalizing pass with
  | zero =>
    cases walked
    exact (List.append_nil _).symm
  | succ i ih =>
    rw [processDelFrom] at walked
    split at walked
    · next pair last here final =>
      rw [deedsFrom, here, final]
      simp only
      split at walked
      · next untouched =>
        rw [if_pos untouched]
        exact ih walked
      · next found =>
        rw [if_neg found]
        split at walked
        · next emptied =>
          rw [if_pos emptied, removeDeeds_deletions]
          cases walked
          rfl
        · next more =>
          rw [if_neg more, deletionsRun_append, removeDeeds_deletions, List.map_append, ih walked,
            ← List.append_assoc]
          rfl
    · cases walked

theorem pass_deeds (walked : processDelSockets pass = some done) :
    done.closed = pass.closed ++ deletedCallbacks (deeds pass) ∧
      (deletedCallbacks (deeds pass)).map Prod.fst = deletedSockets (deeds pass) ∧
      done.ran = pass.ran ++ (deletionsRun (deeds pass)).map Prod.snd := by
  rw [processDelSockets] at walked
  rw [deeds]
  split at walked
  · next idle =>
    cases walked
    rw [if_pos idle]
    exact ⟨(List.append_nil _).symm, rfl, (List.append_nil _).symm⟩
  · next marks =>
    rw [if_neg marks]
    split at walked
    · next absent =>
      cases walked
      rw [if_pos absent]
      exact ⟨(List.append_nil _).symm, rfl, (List.append_nil _).symm⟩
    · next inhabited =>
      rw [if_neg inhabited]
      exact ⟨(deedsFrom_closed walked).1, (deedsFrom_closed walked).2, walk_ran walked⟩

end Deletions

section Rounds
variable {cfg : Config} {process : Process} {loop next : BrokerLoop} {more : Turns}
  {emitted : List Event} {broker : Broker}

theorem effectsOf_deeds (done : List (Deed SocketCallback Thread)) :
    effectsOf (done.map .deed) = (deletedSockets done).map .closed := by
  induction done with
  | nil => rfl
  | cons deed rest ih =>
    cases deed with
    | deleteSocket socket => exact congrArg (Effect.closed socket :: ·) ih
    | deleteCallback | runDeletion => exact ih

theorem answersOf_deeds (done : List (Deed SocketCallback Thread)) :
    answersOf (done.map .deed) = (deletionsRun done).map Prod.snd := by
  have same : deedsOf (done.map (.deed : _ → ReactorRun.Event SocketCallback Thread TimeoutClosure)) =
      done := by
    rw [deedsOf, List.filterMap_map]
    exact List.filterMap_some
  rw [answersOf, same]

theorem effectsIn_closed (removed : List (Nat × SocketCallback)) :
    effectsIn (removed.map (fun pair => .socketClosed pair.1)) =
      (removed.map Prod.fst).map .closed := by
  induction removed with
  | nil => rfl
  | cons pair rest ih => exact congrArg (Effect.closed pair.1 :: ·) ih

theorem answersIn_closed (removed : List (Nat × SocketCallback)) :
    answersIn (removed.map (fun pair => .socketClosed pair.1)) = [] := by
  induction removed with
  | nil => rfl
  | cons pair rest ih => exact ih

theorem answersDue_unbound (ran : List Thread) :
    answersDue (ran.map (fun sender => .reply sender .unbound)) = ran := by
  induction ran with
  | nil => rfl
  | cons sender rest ih => exact congrArg (sender :: ·) ih

theorem effects_timers (timers : List TimeoutClosure) :
    effectsOf (timers.map .timerRun) =
      effectsIn (timers.map fun closure => .timerFired closure.eventId closure.workerIndex) := by
  induction timers with
  | nil => rfl
  | cons timer rest ih => exact congrArg (Effect.fired timer :: ·) ih

theorem answers_timers (timers : List TimeoutClosure) :
    answersOf (timers.map .timerRun) = [] ∧
      answersIn (timers.map fun closure => .timerFired closure.eventId closure.workerIndex) = [] := by
  induction timers with
  | nil => exact ⟨rfl, rfl⟩
  | cons timer rest ih => exact ih

theorem Follows.queued (follows : Follows process emitted broker more next) (outbox : List Output) :
    Follows process (emitted ++ queuedEvents outbox) broker more next := by
  have silent := log_other (queuedEvents outbox) fun event member => by
    simp [queuedEvents_origin event member]
  exact
    { follows with
      effects := by rw [effectsIn_append, silent.1, List.append_nil, follows.effects]
      answers := by rw [answersIn_append, silent.2, List.append_nil, follows.answers] }

theorem Follows.moved (reactor : loop.reactor = process.broker.reactor)
    (sockets : loop.nextSocket = process.broker.nextSocket) (phase : Phase)
    (silent : Silent more) :
    Follows process [] { process.broker with phase := phase } more
      { loop with place := placeOf phase } where
  reactor := reactor
  place _ := rfl
  nextSocket _ := sockets
  effects := silent.1
  answers := by rw [silent.2]; simp [answersIn]

/-- The deeds of `rebuild_poll_items` are what the broker reports of it. -/
theorem rebuilt_deeds (loop : BrokerLoop) {rebuilt : Reactor SocketCallback Thread TimeoutClosure} {ran : List Thread}
    (found : loop.reactor.rebuildPollItems = some (rebuilt, ran)) :
    rebuilt.closed = loop.reactor.closed ++ deletedCallbacks (deeds loop.pass) ∧
      (deletedCallbacks (deeds loop.pass)).map Prod.fst = deletedSockets (deeds loop.pass) ∧
      (deletionsRun (deeds loop.pass)).map Prod.snd = ran := by
  rw [Reactor.rebuildPollItems] at found
  split at found
  · cases found
  · next done walked =>
    cases found
    obtain ⟨closed, gone, deletions⟩ := pass_deeds walked
    exact ⟨closed, gone, deletions.symm⟩

theorem loopTop_follows (reactor : loop.reactor = process.broker.reactor) (here : loop.place = .top)
    (sockets : loop.nextSocket = process.broker.nextSocket) :
    ∃ more next, Steps reactorMachine Proper loop more next ∧
      Follows process process.broker.loopTop.2 process.broker.loopTop.1 more next := by
  have permitted : Proper loop .loopTop := trivial
  have fired : reactorMachine.step loop .loopTop = some (loop.loopTop.1, loop.loopTop.2) := by
    simp [ReactorRun.machine, Loop.step, here]
  refine ⟨loop.loopTop.2, loop.loopTop.1, .single permitted fired, ?_⟩
  have still : Silent [] := ⟨rfl, rfl⟩
  obtain ⟨own, place, nextSocket, requested, inbox⟩ := loop
  obtain rfl : own = process.broker.reactor := reactor
  unfold Broker.loopTop Loop.loopTop
  simp only
  split
  · exact .moved rfl sockets .exited still
  · split
    · split
      · next failed =>
        simp only [failed]
        constructor
        case reactor => rfl
        case place | nextSocket => exact fun alive => absurd rfl alive
        case effects => rfl
        case answers => simp [answersOf, deedsOf, deletionsRun, answersIn, Broker.fault]
      · next rebuilt ran found =>
        simp only [found]
        obtain ⟨closed, gone, deletions⟩ := rebuilt_deeds
          ⟨process.broker.reactor, place, nextSocket, requested, inbox⟩ found
        constructor
        case reactor => rfl
        case place => exact fun _ => rfl
        case nextSocket => exact fun _ => sockets
        case effects => rw [effectsOf_deeds, closed, List.drop_left, effectsIn_closed, gone]
        case answers =>
          rw [answersOf_deeds, answersIn_closed, Broker.emit, answersDue_append, answersDue_unbound,
            deletions]
          rfl
    · exact .moved rfl sockets .timers still

theorem timers_follows (cfg : Config) (reactor : loop.reactor = process.broker.reactor)
    (here : loop.place = .timers) (sockets : loop.nextSocket = process.broker.nextSocket)
    (performed : process.broker.outbox = []) (now : UInt64) :
    ∃ more next, Steps reactorMachine Proper loop more next ∧
      Follows process (process.broker.runTimers cfg now).2 (process.broker.runTimers cfg now).1 more
        next := by
  have permitted : Proper loop (.timers now) := trivial
  have fired : reactorMachine.step loop (.timers now) =
      some ({ loop with
        reactor := (loop.reactor.processClosureRunMap now).1
        place := .poll }, (loop.reactor.processClosureRunMap now).2.map .timerRun) := by
    simp [ReactorRun.machine, Loop.step, here]
  refine ⟨_, _, .single permitted fired, ?_⟩
  rw [reactor]
  constructor
  case reactor => rfl
  case place => exact fun _ => rfl
  case nextSocket => exact fun _ => sockets
  case effects => exact effects_timers _
  case answers =>
    have none_due : ∀ timers : List TimeoutClosure, answersDue (timers.map fun closure =>
        .push (closure.workerIndex % cfg.workers) (.handleTimeout closure.eventId)) = [] := by
      intro timers
      induction timers with
      | nil => rfl
      | cons timer rest ih => exact ih
    rw [(answers_timers _).1, Broker.runTimers, (answers_timers _).2, Broker.emit, answersDue_append,
      none_due, performed]
    rfl

theorem poll_follows (reactor : loop.reactor = process.broker.reactor) (here : loop.place = .poll)
    (sockets : loop.nextSocket = process.broker.nextSocket) (outcome : PollOutcome) :
    ∃ more next, Steps reactorMachine Proper loop more next ∧
      Follows process (process.broker.afterPoll outcome).2 (process.broker.afterPoll outcome).1 more
        next := by
  have permitted : Proper loop (.poll outcome) := trivial
  cases outcome with
  | ready flags =>
    obtain ⟨more, next, steps, silent, same, place, kept⟩ := poll_steps here flags
    refine ⟨more, next, steps, ?_⟩
    constructor
    case reactor => rw [same, reactor]; rfl
    case place => exact fun _ => place
    case nextSocket => exact fun _ => kept.trans sockets
    case effects => exact silent.1
    case answers => rw [silent.2]; simp [Broker.afterPoll, answersIn]
  | error =>
    have fired : reactorMachine.step loop (.poll .error) =
        some ({ loop with place := .dispatch 0 }, [.polled .error]) := by
      simp [ReactorRun.machine, Loop.step, Loop.afterPoll, here]
    exact ⟨_, _, .single permitted fired, .moved reactor sockets (.dispatch 0) ⟨rfl, rfl⟩⟩
  | eterm =>
    have fired : reactorMachine.step loop (.poll .eterm) =
        some ({ loop with place := .returned }, [.polled .eterm]) := by
      simp [ReactorRun.machine, Loop.step, Loop.afterPoll, here]
    exact ⟨_, _, .single permitted fired, .moved reactor sockets .exited ⟨rfl, rfl⟩⟩
  | efault =>
    have fired : reactorMachine.step loop (.poll .efault) =
        some ({ loop with place := .faulted }, [.polled .efault]) := by
      simp [ReactorRun.machine, Loop.step, Loop.afterPoll, here]
    refine ⟨_, _, .single permitted fired, ?_⟩
    constructor
    case reactor => exact reactor
    case place | nextSocket => exact fun alive => absurd rfl alive
    case effects => rfl
    case answers => simp [answersOf, deedsOf, deletionsRun, answersIn, Broker.afterPoll, Broker.fault]

theorem callback_follows (reactor : loop.reactor = process.broker.reactor) {i : Nat}
    (here : loop.place = .dispatch i) (performed : process.broker.outbox = []) {callback : SocketCallback}
    (slot : process.broker.reactor.slot i = .ready callback)
    (request : Option (Request SocketCallback Thread TimeoutClosure)) {result : Broker × List Event}
    (proper : ∀ next, Unmoved loop next → ∀ asked ∈ request, Proper next (.request asked))
    (handled : ∀ next, Unmoved loop next →
      Handled (granted next request) { process.broker with phase := .dispatch (i + 1) } result) :
    ∃ more next, Steps reactorMachine Proper loop more next ∧
      Follows process result.2 result.1 more next := by
  rw [← reactor] at slot
  obtain ⟨more, next, steps, silent, unmoved, running⟩ := callback_steps here slot
  obtain ⟨asks, granting, quiet, still⟩ := granted_steps running request (proper next unmoved)
  have done := handled next unmoved
  have due : answersDue result.1.outbox = [] := by
    rw [done.due]
    simp [performed, answersDue]
  have whole := steps.trans granting
  have answered : answersDue process.broker.outbox ++ answersOf (more ++ asks) =
      answersIn result.2 ++ answersDue result.1.outbox := by
    rw [(silent.append quiet).2, done.answers, due, performed]
    rfl
  by_cases stopped : result.1.phase = .faulted
  · refine ⟨_, _, whole, ?_⟩
    constructor
    case reactor => exact done.reactor
    case place | nextSocket => exact fun alive => absurd stopped alive
    case effects => rw [(silent.append quiet).1, done.effects]
    case answers => exact answered
  · obtain ⟨phase, counted⟩ := done.goesOn stopped
    have finished := whole.trans (finish_steps still)
    rw [List.append_nil] at finished
    refine ⟨_, _, finished, ?_⟩
    constructor
    case reactor => exact done.reactor
    case place => exact fun _ => by rw [phase]; rfl
    case nextSocket => exact fun _ => counted
    case effects => rw [(silent.append quiet).1, done.effects]
    case answers => exact answered

theorem flush_follows (reactor : loop.reactor = process.broker.reactor)
    (place : process.broker.phase ≠ .faulted → loop.place = placeOf process.broker.phase)
    (sockets : process.broker.phase ≠ .faulted → loop.nextSocket = process.broker.nextSocket)
    {output : Output} {rest : List Output} (unperformed : process.broker.outbox = output :: rest) :
    Follows process ((process.setOutbox rest).perform output).2
      ((process.setOutbox rest).perform output).1.broker [] loop := by
  cases output with
  | push worker cmd =>
    refine ⟨reactor, place, sockets, rfl, ?_⟩
    rw [unperformed]
    simp [Process.perform, Process.setOutbox, answersDue, answersIn, answersOf, deedsOf, deletionsRun]
  | reply receiver body =>
    refine ⟨reactor, place, sockets, rfl, ?_⟩
    rw [unperformed]
    cases body <;>
      simp [Process.perform, Process.setOutbox, answersDue, answersIn, answersOf, deedsOf, deletionsRun]
  | send info socket frames cause =>
    have due : answersDue process.broker.outbox = answersDue rest := by
      rw [unperformed]
      rfl
    simp only [Process.perform]
    split
    · refine ⟨reactor, fun alive => absurd rfl alive, fun alive => absurd rfl alive, rfl, ?_⟩
      rw [due]
      simp [Process.setOutbox, Broker.fault, answersIn, answersOf, deedsOf, deletionsRun]
    · refine ⟨reactor, place, sockets, rfl, ?_⟩
      rw [due]
      simp [Process.setOutbox, answersIn, answersOf, deedsOf, deletionsRun]

end Rounds

section Simulation
variable {cfg : Config} {events emitted : List Event} {process after : Process} {turns : Turns}
  {loop : BrokerLoop} {action : Action} {allowed : Process → Action → Prop}

theorem mirrors_step (run : Run reactorMachine Proper turns loop)
    (sound : process.broker.phase ≠ .faulted → Sound (ownership process.broker))
    (mirrors : Mirrors events process turns loop) (move : Move cfg process action after emitted) :
    ∃ more next, Steps reactorMachine Proper loop more next ∧
      Mirrors (events ++ emitted) after (turns ++ more) next := by
  have aside : after.broker = process.broker → (∀ event ∈ emitted, origin event ≠ .broker) →
      ∃ more next, Steps reactorMachine Proper loop more next ∧
        Mirrors (events ++ emitted) after (turns ++ more) next := by
    intro same elsewhere
    refine ⟨[], loop, .refl, ?_⟩
    rw [List.append_nil]
    exact mirrors.aside same elsewhere
  have follow : (∃ more next, Steps reactorMachine Proper loop more next ∧
      Follows process emitted after.broker more next) →
      ∃ more next, Steps reactorMachine Proper loop more next ∧
        Mirrors (events ++ emitted) after (turns ++ more) next := by
    intro ⟨more, next, steps, follows⟩
    exact ⟨more, next, steps, mirrors.follow follows⟩
  have standing : ∀ {phase}, process.broker.phase = phase → phase ≠ .faulted →
      loop.place = placeOf phase ∧ loop.nextSocket = process.broker.nextSocket := by
    intro phase here alive
    have going : process.broker.phase ≠ .faulted := here ▸ alive
    exact ⟨here ▸ mirrors.place going, mirrors.nextSocket going⟩
  cases move with
  | thread thread action after emitted running move =>
    have frame := threadMove_frame move
    exact aside frame.1 fun event member => by simp [frame.2.2.2.2 event member]
  | loopTop phase performed =>
    obtain ⟨place, sockets⟩ := standing phase (by simp)
    obtain ⟨more, next, steps, follows⟩ := loopTop_follows mirrors.reactor place sockets
    exact follow ⟨more, next, steps, follows.queued _⟩
  | timers now phase performed =>
    obtain ⟨place, sockets⟩ := standing phase (by simp)
    obtain ⟨more, next, steps, follows⟩ :=
      timers_follows cfg mirrors.reactor place sockets performed now
    exact follow ⟨more, next, steps, follows.queued _⟩
  | poll outcome phase performed =>
    obtain ⟨place, sockets⟩ := standing phase (by simp)
    obtain ⟨more, next, steps, follows⟩ := poll_follows mirrors.reactor place sockets outcome
    exact follow ⟨more, next, steps, follows.queued _⟩
  | finished input i phase performed slot =>
    obtain ⟨place, sockets⟩ := standing phase (by simp)
    have fired : reactorMachine.step loop .dispatch =
        some ({ loop with place := .top }, [.roundDone]) := by
      rw [← mirrors.reactor, Reactor.slot] at slot
      split at slot
      · next missing =>
        have here : loop.place = .dispatch i := place
        simp [ReactorRun.machine, Loop.step, Loop.dispatchAt, here, missing]
      · split at slot
        · split at slot <;> cases slot
        · cases slot
    have permitted : Proper loop .dispatch := trivial
    exact follow ⟨_, _, .single permitted fired,
      .moved mirrors.reactor sockets .top ⟨rfl, rfl⟩⟩
  | quiet input i phase performed slot =>
    obtain ⟨place, sockets⟩ := standing phase (by simp)
    have fired : reactorMachine.step loop .dispatch =
        some ({ loop with place := .dispatch (i + 1) }, []) := by
      rw [← mirrors.reactor, Reactor.slot] at slot
      split at slot
      · cases slot
      · next item found =>
        split at slot
        · split at slot <;> cases slot
        · next unset =>
          have here : loop.place = .dispatch i := place
          simp [ReactorRun.machine, Loop.step, Loop.dispatchAt, here, found, unset]
    have permitted : Proper loop .dispatch := trivial
    exact follow ⟨_, _, .single permitted fired,
      .moved mirrors.reactor sockets (.dispatch (i + 1)) ⟨rfl, rfl⟩⟩
  | outOfRange input i phase performed slot =>
    exact absurd slot ((sound (by simp [phase])).slot_inside i)
  | command i sender oracle cmd rest phase performed slot unread result same =>
    subst same
    obtain ⟨place, sockets⟩ := standing phase (by simp)
    have books : Sound (ownership { process.broker with phase := .dispatch (i + 1) }) :=
      sound (by simp [phase])
    have kept := kept_of_run run
    have proper : ∀ next, Unmoved loop next → ∀ request ∈ asked cfg
        { process.broker with phase := .dispatch (i + 1) } oracle sender cmd,
        Proper next (.request request) := by
      intro next unmoved request member
      have asks := asked_proper kept books mirrors.reactor sockets oracle sender cmd request member
      cases request with
      | delSocket socket deletion =>
        simpa only [Proper, unmoved.nextSocket, unmoved.requested] using asks
      | _ => trivial
    obtain ⟨more, next, steps, follows⟩ := callback_follows mirrors.reactor place performed slot
      _ proper fun next unmoved =>
        handleCommand_handled cfg { process.broker with phase := .dispatch (i + 1) }
        (unmoved.reactor.trans mirrors.reactor) (unmoved.nextSocket.trans sockets) oracle sender cmd
    refine follow ⟨more, next, steps, ?_⟩
    have read : Follows process (.handled sender cmd :: _) _ more next := ⟨follows.reactor,
      follows.place, follows.nextSocket, follows.effects, follows.answers⟩
    exact read.queued _
  | message i callback frames phase performed slot network nonempty result same =>
    subst same
    obtain ⟨place, sockets⟩ := standing phase (by simp)
    obtain ⟨more, next, steps, follows⟩ := callback_follows mirrors.reactor place performed slot
      none (by simp) fun next unmoved =>
        receive_handled cfg { process.broker with phase := .dispatch (i + 1) }
        (unmoved.reactor.trans mirrors.reactor) (unmoved.nextSocket.trans sockets) callback frames
    exact follow ⟨more, next, steps, follows.queued _⟩
  | flush output rest live unperformed =>
    exact follow ⟨[], loop, .refl,
      flush_follows mirrors.reactor mirrors.place mirrors.nextSocket unperformed⟩
  | worker index cmd rest legal running idle unread result same =>
    refine aside rfl fun event member => ?_
    rcases List.mem_cons.mp member with rfl | later
    · simp [origin]
    · rw [← same] at later
      simp [exec_origin _ _ _ _ _ _ _ later]
  | release | joinWorkers => exact aside rfl (by simp [origin])
  | joinBroker => exact aside rfl (by simp [origin])

/-- The broker is an owner of its reactor as reactor.cc wants it: in every run of the
process its thread takes turns of `reactor::loop`. -/
theorem broker_runs_reactor (cfg : Config) (events : List Event) (process : Process)
    (run : Run (machine cfg) anyStep events process) :
    ∃ turns loop, Run reactorMachine Proper turns loop ∧ Mirrors events process turns loop := by
  refine run.simulated (Mirrors · · · ·) ?_ ?_
  · have entered : reactorMachine.step reactorMachine.start .enter =
        some ({ reactorMachine.start with place := .top }, [.entered]) := rfl
    have permitted : Proper reactorMachine.start .enter := trivial
    exact ⟨_, _, .single permitted entered, rfl, fun _ => rfl, fun _ => rfl, rfl, rfl⟩
  · intro events process turns loop action emitted after earlier told mirrors _ fired
    exact mirrors_step told (sound_of_run earlier) mirrors (step_move fired)

end Simulation

/-- One round of the loop that reads a command of thread 0, with `count` sockets. -/
def commandRound (count : Nat) : List Action :=
  [.loopTop, .timers 0, .poll (.ready (true :: List.replicate (count - 1) false)),
    .dispatch (.frontend (.app 0) ⟨true, 0, 0⟩)]

def bindsAndUnbinds : List Action :=
  [.thread (.app 0) (.bind [1] 0)] ++ commandRound 1 ++ [.flush, .dispatch .nothing,
    .thread (.app 0) .receive, .thread (.app 0) .insertFactories, .thread (.app 0) (.unbind [1])] ++
    commandRound 2 ++ [.dispatch .nothing, .dispatch .nothing, .loopTop, .flush]

theorem broker_runs_reactor_unbinds :
    let final := reached (machine HeaderCodec.plain) bindsAndUnbinds
    .socketClosed 1 ∈ final.2 ∧ .replied (.app 0) .unbound ∈ final.2 ∧
      ∃ turns loop, Run reactorMachine Proper turns loop ∧ Mirrors final.2 final.1 turns loop :=
  ⟨by decide +kernel, by decide +kernel, broker_runs_reactor HeaderCodec.plain _ _
    (run_reached (machine HeaderCodec.plain) bindsAndUnbinds)⟩

end Rpcz.BrokerReactor
