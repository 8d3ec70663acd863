import Rpcz.BrokerFaults
import Rpcz.HeaderCodec

/-!
An endpoint that zmq refuses. The exception of `bind` or `connect` leaves
`broker_thread::run`, so the broker stops for good: nothing is undone, nobody is
answered, and what the calling thread recorded beforehand stays.
-/

namespace Rpcz.RejectedEndpoint
open Automaton Message EventLog ReactorLoop WorkerThread BrokerThread ProcessModel Moves History
  BrokerSockets BrokerFaults HeaderCodec

def requested : Command → Option Bytes
  | .connect endpoint => some endpoint
  | .bind endpoint => some endpoint
  | _ => none

/-- Both socket vectors, `bind_map_` and the reactor's `sockets_` are as before. -/
def TablesKept (before after : Broker) : Prop :=
  after.dealerSockets = before.dealerSockets ∧ after.routerSockets = before.routerSockets ∧
    after.bindMap = before.bindMap ∧ after.reactor.sockets = before.reactor.sockets

/-- The broker bound the endpoint, or it has yet to read a bind of it. -/
def Bound (events : List Event) (process : Process) (endpoint : Bytes) : Prop :=
  (∃ thread index, .routerCreated thread endpoint index ∈ events) ∨
    ∃ thread, .bind endpoint ∈ process.pipes thread

def Recorded (process : Process) (endpoint : Bytes) : Prop :=
  ∃ server endpoints, process.servers server = .alive endpoints ∧ endpoint ∈ endpoints

def Later (cfg : Config) (process : Process) (property : List Event → Process → Prop) : Prop :=
  ∃ events final, Steps (machine cfg) anyStep process events final ∧ property events final

/-- What is asked of the step that reads a refused command: the socket it opened
is or will be deleted, its sender is or will be answered, and the broker goes on
to read commands. -/
structure Harmless (cfg : Config) (process after : Process) (sender : Thread)
    (events : List Event) : Prop where
  tables : TablesKept process.broker after.broker
  deleted : Later cfg after (fun _ final => final.broker.isClosed process.broker.nextSocket = true)
  answered : Later cfg after (fun later _ => ∃ body, .replied sender body ∈ later)
  serving : Later cfg after (fun later _ => ∃ other cmd, .handled other cmd ∈ later)
  endpoints : ∀ endpoint, Recorded after endpoint → Bound events after endpoint

variable {cfg : Config} {process after : Process} {events emitted : List Event}
  {allowed : Process → Action → Prop}

theorem stopped_step {action : Action} (move : Move cfg process action after emitted)
    (stopped : process.broker.phase = .faulted) :
    after.broker = process.broker ∧
      ∀ event ∈ emitted, origin event ≠ .broker ∧ origin event ≠ .handled := by
  cases move with
  | thread thread action after emitted running move =>
    have frame := threadMove_frame move
    exact ⟨frame.1, fun event member => by rw [frame.2.2.2.2 event member]; decide⟩
  | worker index cmd rest legal running idle unread result same =>
    refine ⟨rfl, fun event member => ?_⟩
    rcases List.mem_cons.mp member with rfl | later
    · exact ⟨by simp [origin], by simp [origin]⟩
    · rw [← same] at later
      rw [exec_origin _ _ _ _ _ _ event later]
      decide
  | release | joinWorkers => exact ⟨rfl, by simp [origin]⟩
  | joinBroker joining exited => simp [stopped] at exited
  | flush output rest live => exact absurd stopped live
  | loopTop phase | timers now phase | poll outcome phase | finished input i phase
  | quiet input i phase | outOfRange input i phase | command i sender oracle cmd rest phase
  | message i callback frames phase => simp [stopped] at phase

theorem stopped_of_steps (stopped : process.broker.phase = .faulted)
    (steps : Steps (machine cfg) allowed process events after) :
    after.broker = process.broker ∧
      ∀ event ∈ events, origin event ≠ .broker ∧ origin event ≠ .handled := by
  refine Steps.invariant (fun events after => after.broker = process.broker ∧
    ∀ event ∈ events, origin event ≠ .broker ∧ origin event ≠ .handled) ⟨rfl, by simp⟩ ?_ steps
  intro events state action emitted final earlier before _ fired
  have next := stopped_step (step_move fired) (by rw [before.1]; exact stopped)
  refine ⟨next.1.trans before.1, fun event member => ?_⟩
  rcases List.mem_append.mp member with old | new
  · exact before.2 event old
  · exact next.2 event new

theorem refused_command (cfg : Config) (broker : Broker) {oracle : Oracle} (sender : Thread)
    {cmd : Command} {endpoint : Bytes} (asked : requested cmd = some endpoint)
    (refused : oracle.accepts = false) :
    ∃ dealers, broker.handleCommand cfg oracle sender cmd =
        ({ broker with dealerSockets := dealers, nextSocket := broker.nextSocket + 1,
                       phase := .faulted }, [.faulted .zmqError]) ∧
      (dealers = broker.dealerSockets ↔ cmd = .bind endpoint) := by
  cases cmd with
  | connect name =>
    refine ⟨broker.dealerSockets ++ [some broker.nextSocket], ?_, by simp⟩
    simp [Broker.handleCommand, Broker.handleConnectCommand, Broker.fault, refused]
  | bind name =>
    obtain rfl : name = endpoint := by simpa [requested] using asked
    refine ⟨broker.dealerSockets, ?_, by simp⟩
    simp [Broker.handleCommand, Broker.handleBindCommand, Broker.fault, refused]
  | _ => cases asked

theorem threadMove_recorded {actor : Thread} {action : ThreadAction}
    (move : ThreadMove cfg process actor action after emitted) {endpoint : Bytes}
    (recorded : Recorded after endpoint) :
    Recorded process endpoint ∨ ∃ thread, .bind endpoint ∈ after.pipes thread := by
  obtain ⟨server, endpoints, alive, member⟩ := recorded
  cases move with
  | serverBind other name names idle found unbound =>
    simp only [Process.startBind, Process.write, Process.setCall] at alive ⊢
    by_cases here : server = other
    · subst here
      rw [Function.update_self, Server.alive.injEq] at alive
      rw [← alive] at member
      rcases List.mem_append.mp member with old | new
      · exact .inl ⟨server, names, found, old⟩
      · exact .inr ⟨actor, by simp [List.mem_singleton.mp new]⟩
    · rw [Function.update_of_ne here] at alive
      exact .inl ⟨server, endpoints, alive, member⟩
  | newServer other idle absent =>
    by_cases here : server = other
    · subst here
      simp only [Function.update_self, Server.alive.injEq] at alive
      rw [← alive] at member
      cases member
    · simp only [Function.update_of_ne here] at alive
      exact .inl ⟨server, endpoints, alive, member⟩
  | serverDestroyed other inside =>
    by_cases here : server = other
    · subst here
      simp at alive
    · simp only [Function.update_of_ne here] at alive
      exact .inl ⟨server, endpoints, alive, member⟩
  | _ => exact .inl ⟨server, endpoints, alive, member⟩

theorem move_recorded {action : Action} (move : Move cfg process action after emitted)
    {endpoint : Bytes} (recorded : Recorded after endpoint) :
    Recorded process endpoint ∨ ∃ thread, .bind endpoint ∈ after.pipes thread := by
  cases move with
  | thread thread action after emitted running move => exact threadMove_recorded move recorded
  | flush output rest =>
    refine .inl ?_
    cases output with
    | push | reply => exact recorded
    | send info socket frames cause =>
      simp only [Process.perform] at recorded
      split at recorded <;> exact recorded
  | _ => exact .inl recorded

theorem waiting_step {action : Action} (move : Move cfg process action after emitted)
    {thread : Thread} {endpoint : Bytes} (waiting : .bind endpoint ∈ process.pipes thread)
    (alive : after.broker.phase ≠ .faulted) :
    Bound emitted after endpoint := by
  by_cases read : ∃ cmd, .handled thread cmd ∈ emitted
  · obtain ⟨cmd, member⟩ := read
    obtain ⟨i, oracle, rest, result, _, _, _, rfl, unread, same, rfl, report⟩ :=
      handled_move move member
    rw [unread] at waiting
    rcases List.mem_cons.mp waiting with rfl | behind
    · cases accepted : oracle.accepts with
      | true =>
        refine .inl ⟨thread, process.broker.routerSockets.length, ?_⟩
        rw [report, ← same]
        simp [Broker.handleCommand, Broker.handleBindCommand, accepted]
      | false =>
        have asked : requested (.bind endpoint) = some endpoint := rfl
        obtain ⟨dealers, refused, _⟩ := refused_command cfg
          { process.broker with phase := .dispatch (i + 1) } thread asked accepted
        rw [refused] at same
        exact absurd (by rw [← same]) alive
    · exact .inr ⟨thread, by simpa using behind⟩
  · obtain ⟨more, grown⟩ := pipe_grows move thread (fun cmd member => read ⟨cmd, member⟩)
    exact .inr ⟨thread, by rw [grown]; exact List.mem_append_left _ waiting⟩

theorem recorded_of_run (run : Run (machine cfg) allowed events process)
    (alive : process.broker.phase ≠ .faulted) {endpoint : Bytes}
    (recorded : Recorded process endpoint) : Bound events process endpoint := by
  refine Steps.invariant (fun events process => process.broker.phase ≠ .faulted →
    ∀ endpoint, Recorded process endpoint → Bound events process endpoint) ?_ ?_ run alive endpoint
      recorded
  · intro _ endpoint ⟨server, endpoints, absent, _⟩
    cases absent
  · intro events process action emitted after earlier before _ fired alive endpoint recorded
    have move := step_move fired
    have went : process.broker.phase ≠ .faulted := by
      intro stopped
      rw [(stopped_step move stopped).1] at alive
      exact alive stopped
    rcases move_recorded move recorded with old | waiting
    · rcases before went endpoint old with ⟨thread, index, created⟩ | ⟨thread, waiting⟩
      · exact .inl ⟨thread, index, List.mem_append_left _ created⟩
      · rcases waiting_step move waiting alive with ⟨other, index, created⟩ | still
        · exact .inl ⟨other, index, List.mem_append_right _ created⟩
        · exact .inr still
    · exact .inr waiting

structure Refusal (process after : Process) (events emitted : List Event) (sender : Thread)
    (cmd : Command) (endpoint : Bytes) : Prop where
  asked : requested cmd = some endpoint
  stopped : after.broker.phase = .faulted
  opened : process.broker.isClosed process.broker.nextSocket = false
  reactor : after.broker.reactor = process.broker.reactor
  routers : after.broker.routerSockets = process.broker.routerSockets
  bindMap : after.broker.bindMap = process.broker.bindMap
  dealers : after.broker.dealerSockets = process.broker.dealerSockets ↔ cmd = .bind endpoint
  servers : after.servers = process.servers
  others : ∀ other, Bound events process other →
    Bound (events ++ emitted) after other ∨ cmd = .bind other

theorem refusal_of_step (run : Run (machine cfg) allowed events process) {sender : Thread}
    {oracle : Oracle}
    (fired : (machine cfg).step process (.dispatch (.frontend sender oracle)) = some (after, emitted))
    {cmd : Command} (read : .handled sender cmd ∈ emitted) {endpoint : Bytes}
    (asked : requested cmd = some endpoint) (refused : oracle.accepts = false) :
    Refusal process after events emitted sender cmd endpoint := by
  obtain ⟨i, other, rest, result, phase, performed, slot, action, unread, same, rfl, report⟩ :=
    handled_move (step_move fired) read
  cases action
  obtain ⟨dealers, stops, kept⟩ := refused_command cfg
    { process.broker with phase := .dispatch (i + 1) } sender asked refused
  rw [stops] at same
  subst same
  have sound := sound_of_run run (by simp [phase])
  refine ⟨asked, rfl, ?_, rfl, rfl, rfl, kept, rfl, fun name bound => ?_⟩
  · refine List.any_eq_false.mpr (fun pair member => ?_)
    have older : pair.1 < process.broker.nextSocket :=
      sound.fresh pair (List.mem_append_right _ member)
    simp [Nat.ne_of_lt older]
  · rcases bound with ⟨thread, index, created⟩ | ⟨thread, waiting⟩
    · exact .inl (.inl ⟨thread, index, List.mem_append_left _ created⟩)
    · by_cases here : thread = sender
      · subst here
        rw [unread] at waiting
        rcases List.mem_cons.mp waiting with first | behind
        · exact .inr first.symm
        · exact .inl (.inr ⟨thread, by simpa using behind⟩)
      · exact .inl (.inr ⟨thread, by simpa [Function.update_of_ne here] using waiting⟩)

section Afterwards
variable {sender : Thread} {cmd : Command} {endpoint : Bytes}
  (refusal : Refusal process after events emitted sender cmd endpoint)
include refusal

theorem Refusal.tables :
    TablesKept process.broker after.broker ↔ cmd = .bind endpoint := by
  rw [← refusal.dealers]
  exact ⟨fun kept => kept.1, fun same => ⟨same, refusal.routers, refusal.bindMap,
    congrArg Reactor.sockets refusal.reactor⟩⟩

theorem Refusal.undeleted :
    ¬ Later cfg after (fun _ final =>
      final.broker.isClosed process.broker.nextSocket = true) := by
  rintro ⟨later, final, steps, closed⟩
  rw [(stopped_of_steps refusal.stopped steps).1, Broker.isClosed, refusal.reactor,
    ← Broker.isClosed, refusal.opened] at closed
  cases closed

theorem Refusal.unanswered (thread : Thread) :
    ¬ Later cfg after (fun later _ => ∃ body, .replied thread body ∈ later) := by
  rintro ⟨later, final, steps, body, member⟩
  exact ((stopped_of_steps refusal.stopped steps).2 _ member).1 rfl

theorem Refusal.unserved :
    ¬ Later cfg after (fun later _ => ∃ thread cmd, .handled thread cmd ∈ later) := by
  rintro ⟨later, final, steps, thread, cmd, member⟩
  exact ((stopped_of_steps refusal.stopped steps).2 _ member).2 rfl

theorem Refusal.endpoints (run : Run (machine cfg) allowed events process)
    (alive : process.broker.phase ≠ .faulted) :
    (∀ name, Recorded after name → Bound (events ++ emitted) after name) ↔
      (cmd = .bind endpoint → Recorded process endpoint →
        Bound (events ++ emitted) after endpoint) := by
  have recorded : ∀ name, Recorded after name ↔ Recorded process name := by
    intro name
    unfold Recorded
    rw [refusal.servers]
  constructor
  · intro all _ known
    exact all endpoint ((recorded endpoint).mpr known)
  · intro own name known
    have known := (recorded name).mp known
    rcases refusal.others name (recorded_of_run run alive known) with still | refused
    · exact still
    · have asked := refusal.asked
      rw [refused, requested, Option.some.injEq] at asked
      subst asked
      exact own refused known

end Afterwards

/-- A refused command always does harm, whatever the state. The tables are kept
only by a bind, and the endpoint of a server stays recorded without a socket. -/
theorem refused_harms (run : Run (machine cfg) anyStep events process) {sender : Thread}
    {oracle : Oracle}
    (fired : (machine cfg).step process (.dispatch (.frontend sender oracle)) = some (after, emitted))
    {cmd : Command} (read : .handled sender cmd ∈ emitted) {endpoint : Bytes}
    (asked : requested cmd = some endpoint) (refused : oracle.accepts = false) :
    ¬ Harmless cfg process after sender (events ++ emitted) ∧
      (TablesKept process.broker after.broker ↔ cmd = .bind endpoint) ∧
      ¬ Later cfg after (fun _ final =>
        final.broker.isClosed process.broker.nextSocket = true) ∧
      (∀ thread, ¬ Later cfg after (fun later _ => ∃ body, .replied thread body ∈ later)) ∧
      ¬ Later cfg after (fun later _ => ∃ thread other, .handled thread other ∈ later) ∧
      ((∀ name, Recorded after name → Bound (events ++ emitted) after name) ↔
        (cmd = .bind endpoint → Recorded process endpoint →
          Bound (events ++ emitted) after endpoint)) := by
  have refusal := refusal_of_step run fired read asked refused
  have alive : process.broker.phase ≠ .faulted := by
    obtain ⟨i, _, _, _, phase, _⟩ := handled_move (step_move fired) read
    simp [phase]
  exact ⟨fun harmless => refusal.unserved harmless.serving, refusal.tables, refusal.undeleted,
    refusal.unanswered, refusal.unserved, refusal.endpoints run alive⟩

/-- A server of thread 0 binds endpoint 1; the broker is about to read the command. -/
def serverBinding : List Action :=
  [.thread (.app 0) (.newServer 0), .thread (.app 0) (.serverBind 0 [1]), .loopTop, .timers 0,
    .poll (.ready [true])]

def refusing : Action := .dispatch (.frontend (.app 0) ⟨false, 0, 0⟩)

abbrev bindingServer : Process := (reached (machine plain) serverBinding).1

abbrev refusedBind : Process := (((machine plain).step bindingServer refusing).getD (bindingServer, [])).1

theorem refused_step : (machine plain).step bindingServer refusing =
    some (refusedBind, [.handled (.app 0) (.bind [1]), .faulted .zmqError]) :=
  step_of_enabled (by decide +kernel) (by decide +kernel)

theorem refused_harms_bind :
    ¬ Harmless plain bindingServer refusedBind (.app 0)
      ((reached (machine plain) serverBinding).2 ++
        [.handled (.app 0) (.bind [1]), .faulted .zmqError]) := by
  have read : Event.handled (.app 0) (.bind [1]) ∈
      [Event.handled (.app 0) (.bind [1]), .faulted .zmqError] := by simp
  exact (refused_harms (run_reached (machine plain) serverBinding) refused_step read rfl rfl).1

theorem refused_not_harmless : ¬ ∀ cfg events process sender oracle after emitted cmd endpoint,
    Run (machine cfg) anyStep events process →
      (machine cfg).step process (.dispatch (.frontend sender oracle)) = some (after, emitted) →
      .handled sender cmd ∈ emitted → requested cmd = some endpoint → oracle.accepts = false →
        Harmless cfg process after sender (events ++ emitted) := by
  intro claim
  have run := run_reached (machine plain) serverBinding
  have read : Event.handled (.app 0) (.bind [1]) ∈
      [Event.handled (.app 0) (.bind [1]), .faulted .zmqError] := by simp
  have harmless := claim plain _ _ _ _ _ _ _ _ run refused_step read rfl rfl
  have refusal := refusal_of_step run refused_step read rfl rfl
  exact refusal.unserved harmless.serving

end Rpcz.RejectedEndpoint
