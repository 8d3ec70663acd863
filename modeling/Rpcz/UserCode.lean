import Rpcz.Dispatching
import Rpcz.Forwarding

/-!
A process together with what its user code says: which requests it makes and
which repliers it answers through. Every request and reply that is under way to
the broker was asked, answered or refused, and nothing that was said gets lost.
-/

namespace Rpcz.UserCode
open Automaton Message EventLog ReactorLoop RequestHandlers WorkerThread BrokerThread Moves History
  EventIds Forwarding Dispatching
open ProcessModel hiding machine

/-- `repliers` were handed to services; a service may keep copies of them. -/
structure Member where
  process : Process
  repliers : List (ConnectionInfo × UInt64)

inductive Report where
  | event (event : Event)
  | asked (thread : Thread) (info : ConnectionInfo) (ctrl : Controller)
      (service method payload : Bytes)
  | answered (thread : Thread) (response : Response)
deriving DecidableEq

/-- The response of `replier::reply` and `replier::reply_error`. -/
def responseOf : Action → Option (Thread × Response)
  | .thread thread (.reply info eventId payload) => some (thread, ⟨info, eventId, .done payload⟩)
  | .thread thread (.replyError info eventId code text) =>
    some (thread, ⟨info, eventId, .error code text⟩)
  | _ => none

def requestBy (process : Process) : Action → Option Report
  | .thread thread (.request info service method payload handler timeoutMs) =>
    some (.asked thread info ⟨process.requests, process.nextEventId, handler, timeoutMs⟩
      service method payload)
  | _ => none

def said (process : Process) (action : Action) : List Report :=
  (requestBy process action).toList ++
    ((responseOf action).map fun response => .answered response.1 response.2).toList

/-- The replier a service is handed with a request. A `cpp_service` hands it on
to the method. -/
def replierIn (cfg : Config) : Event → Option (ConnectionInfo × UInt64)
  | .called info eventId _ _ _ => some (info, eventId)
  | .dispatched info eventId _ svc _ _ =>
    if (cfg.descriptor svc.target.cls).isNone then some (info, eventId) else none
  | _ => none

theorem replierIn_isHandling {cfg : Config} {event : Event} {replier : ConnectionInfo × UInt64}
    (hands : replierIn cfg event = some replier) : isHandling event = true := by
  cases event <;> first | rfl | cases hands

/-- A step that answers needs the replier. -/
def Member.step (cfg : Config) (member : Member) (action : Action) :
    Option (Member × List Report) :=
  if (responseOf action).all fun response =>
      (response.2.info, response.2.eventId) ∈ member.repliers then
    (member.process.step cfg action).map fun result =>
      (⟨result.1, member.repliers ++ result.2.filterMap (replierIn cfg)⟩,
        said member.process action ++ result.2.map .event)
  else none

def machine (cfg : Config) : Machine Member Action Report := ⟨⟨Process.new, []⟩, Member.step cfg⟩

def eventsIn (reports : List Report) : List Event :=
  reports.filterMap fun
    | .event event => some event
    | _ => none

@[simp] theorem eventsIn_append (first second : List Report) :
    eventsIn (first ++ second) = eventsIn first ++ eventsIn second :=
  List.filterMap_append ..

theorem mem_eventsIn {event : Event} {reports : List Report} :
    event ∈ eventsIn reports ↔ .event event ∈ reports := by
  constructor
  · intro listed
    obtain ⟨report, member, shown⟩ := List.mem_filterMap.mp listed
    cases report with
    | event other =>
      cases shown
      exact member
    | asked | answered => cases shown
  · exact fun member => List.mem_filterMap.mpr ⟨_, member, rfl⟩

theorem mem_said {process : Process} {action : Action} {report : Report} :
    report ∈ said process action ↔ requestBy process action = some report ∨
      ∃ thread response, responseOf action = some (thread, response) ∧
        report = .answered thread response := by
  unfold said
  rw [List.mem_append, Option.mem_toList, Option.mem_toList, Option.map_eq_some_iff]
  constructor
  · rintro (asks | ⟨response, answers, rfl⟩)
    · exact .inl asks
    · exact .inr ⟨response.1, response.2, answers, rfl⟩
  · rintro (asks | ⟨thread, response, answers, rfl⟩)
    · exact .inl asks
    · exact .inr ⟨_, answers, rfl⟩

theorem eventsIn_said (process : Process) (action : Action) :
    eventsIn (said process action) = [] := by
  apply List.filterMap_eq_nil_iff.mpr
  intro report member
  rcases mem_said.mp member with asks | ⟨thread, response, _, rfl⟩
  · unfold requestBy at asks
    split at asks
    · cases asks
      rfl
    · cases asks
  · rfl

theorem eventsIn_events (events : List Event) : eventsIn (events.map .event) = events := by
  simp [eventsIn, List.filterMap_map]

variable {cfg : Config} {member after : Member} {reports emitted : List Report}
  {allowed : Member → Action → Prop}

theorem step_cases {action : Action}
    (fired : (machine cfg).step member action = some (after, emitted)) :
    ∃ events, (ProcessModel.machine cfg).step member.process action = some (after.process, events) ∧
      after.repliers = member.repliers ++ events.filterMap (replierIn cfg) ∧
      emitted = said member.process action ++ events.map .event ∧
      ∀ thread response, responseOf action = some (thread, response) →
        (response.info, response.eventId) ∈ member.repliers := by
  change member.step cfg action = some (after, emitted) at fired
  unfold Member.step at fired
  split at fired
  · next permitted =>
    obtain ⟨result, stepped, same⟩ := Option.map_eq_some_iff.mp fired
    simp only [Prod.mk.injEq] at same
    obtain ⟨rfl, rfl⟩ := same
    refine ⟨result.2, stepped, rfl, rfl, fun thread response answers => ?_⟩
    rw [answers] at permitted
    simpa using permitted
  · cases fired

theorem project {origin : Member} {permitted : Process → Action → Prop}
    (permits : ∀ member action, allowed member action → permitted member.process action)
    (run : Steps (machine cfg) allowed origin reports member) :
    Steps (ProcessModel.machine cfg) permitted origin.process (eventsIn reports) member.process := by
  induction run with
  | refl => exact .refl
  | @next reports emitted member after action earlier granted fired ih =>
    obtain ⟨events, stepped, _, rfl, _⟩ := step_cases fired
    rw [eventsIn_append, eventsIn_append, eventsIn_said, eventsIn_events, List.nil_append]
    exact ih.next (permits _ _ granted) stepped

theorem project_run (run : Run (machine cfg) allowed reports member) :
    Run (ProcessModel.machine cfg) anyStep (eventsIn reports) member.process :=
  project (fun _ _ _ => trivial) run

/-! ## Repliers -/

theorem repliers_of_run (run : Run (machine cfg) allowed reports member) :
    member.repliers = (eventsIn reports).filterMap (replierIn cfg) := by
  refine Steps.invariant (fun reports member =>
    member.repliers = (eventsIn reports).filterMap (replierIn cfg)) rfl ?_ run
  intro reports member action emitted after _ known _ fired
  obtain ⟨events, _, handed, rfl, _⟩ := step_cases fired
  rw [handed, known, eventsIn_append, eventsIn_append, eventsIn_said, eventsIn_events,
    List.nil_append, List.filterMap_append]

theorem answered_handed (run : Run (machine cfg) allowed reports member) {thread : Thread}
    {response : Response} (answered : .answered thread response ∈ reports) :
    ∃ event ∈ eventsIn reports, replierIn cfg event = some (response.info, response.eventId) := by
  refine Steps.invariant (fun reports _ => .answered thread response ∈ reports →
    ∃ event ∈ eventsIn reports, replierIn cfg event = some (response.info, response.eventId))
    (by simp) ?_ run answered
  intro reports member action emitted after earlier known _ fired answered
  obtain ⟨events, _, _, rfl, holds⟩ := step_cases fired
  have older : (∃ event ∈ eventsIn reports,
      replierIn cfg event = some (response.info, response.eventId)) := by
    rcases List.mem_append.mp answered with old | new
    · exact known old
    · rcases List.mem_append.mp new with spoken | happened
      · rcases mem_said.mp spoken with asks | ⟨_, _, answers, same⟩
        · unfold requestBy at asks
          split at asks <;> cases asks
        · cases same
          have held := holds thread response answers
          rw [repliers_of_run earlier] at held
          exact List.mem_filterMap.mp held
      · obtain ⟨event, _, same⟩ := List.mem_map.mp happened
        cases same
  obtain ⟨event, listed, hands⟩ := older
  rw [eventsIn_append]
  exact ⟨event, List.mem_append_left _ listed, hands⟩

/-- The responses of a member: what its services answered and what the library refused. -/
def Responds (cfg : Config) (reports : List Report) (response : Response) : Prop :=
  (∃ thread, .answered thread response ∈ reports) ∨
    ∃ event ∈ eventsIn reports, refusal cfg event = some response

theorem Responds.mono {more : List Report} {response : Response}
    (responds : Responds cfg reports response) (kept : reports ⊆ more) :
    Responds cfg more response := by
  rcases responds with ⟨thread, answered⟩ | ⟨event, listed, refused⟩
  · exact .inl ⟨thread, kept answered⟩
  · exact .inr ⟨event, mem_eventsIn.mpr (kept (mem_eventsIn.mp listed)), refused⟩

theorem Responds.handled (run : Run (machine cfg) allowed reports member) {response : Response}
    (responds : Responds cfg reports response) :
    ∃ event ∈ eventsIn reports, isHandling event = true ∧
      (replierIn cfg event = some (response.info, response.eventId) ∨
        refusal cfg event = some response) := by
  rcases responds with ⟨thread, answered⟩ | ⟨event, listed, refused⟩
  · obtain ⟨event, listed, hands⟩ := answered_handed run answered
    exact ⟨event, listed, replierIn_isHandling hands, .inl hands⟩
  · refine ⟨event, listed, ?_, .inr refused⟩
    cases event <;> first | rfl | cases refused

/-! ## Requests and replies on the way to the broker -/

def Meant (cfg : Config) (reports : List Report) : Command → Prop
  | .request info ctrl data => ∃ thread service method payload,
    .asked thread info ctrl service method payload ∈ reports ∧
      data = requestFrames cfg.proto ctrl.eventId service method payload
  | .reply info data => ∃ response, Responds cfg reports response ∧
    response.command cfg.proto = .reply info data
  | _ => True

theorem Meant.mono {more : List Report} {cmd : Command} (meant : Meant cfg reports cmd)
    (kept : reports ⊆ more) : Meant cfg more cmd := by
  cases cmd with
  | request info ctrl data =>
    obtain ⟨thread, service, method, payload, asked, same⟩ := meant
    exact ⟨thread, service, method, payload, kept asked, same⟩
  | reply info data =>
    obtain ⟨response, responds, same⟩ := meant
    exact ⟨response, responds.mono kept, same⟩
  | _ => trivial

/-- The command a thread in `connection::request` is about to write. -/
def commandOf : Call → Option Command
  | .requesting info ctrl data => some (.request info ctrl data)
  | _ => none

/-- A command that is going to be written, waits in a pipe or was read. -/
def Underway (process : Process) (events : List Event) (cmd : Command) : Prop :=
  (∃ thread, commandOf (process.calls thread) = some cmd) ∨
    (∃ thread, cmd ∈ process.pipes thread) ∨ ∃ thread, .handled thread cmd ∈ events

inductive Born (cfg : Config) (process : Process) (action : Action) (events : List Event) :
    Command → Prop where
  | asked (thread : Thread) (info : ConnectionInfo) (service method payload : Bytes)
      (handler : Option Nat) (timeoutMs : Int64)
      (same : action = .thread thread (.request info service method payload handler timeoutMs)) :
      Born cfg process action events
        (.request info ⟨process.requests, process.nextEventId, handler, timeoutMs⟩
          (requestFrames cfg.proto process.nextEventId service method payload))
  | answered (thread : Thread) (response : Response)
      (same : responseOf action = some (thread, response)) :
      Born cfg process action events (response.command cfg.proto)
  | refused (event : Event) (response : Response) (listed : event ∈ events)
      (same : refusal cfg event = some response) :
      Born cfg process action events (response.command cfg.proto)

structure Acts (process after : Process) (thread : Thread) (commands : List Command) (call : Call) :
    Prop where
  pipes : ∀ other, after.pipes other = process.pipes other ++ if other = thread then commands else []
  calls : ∀ other, after.calls other = if other = thread then call else process.calls other

section Acts
variable {process after : Process} {thread : Thread} {commands : List Command} {call : Call}

theorem Acts.write_call (thread : Thread) (commands : List Command) (call : Call)
    (pipes : after.pipes = Function.update process.pipes thread (process.pipes thread ++ commands))
    (calls : after.calls = Function.update process.calls thread call) :
    Acts process after thread commands call where
  pipes other := by
    rw [pipes]
    by_cases here : other = thread
    · subst here
      simp
    · simp [here]
  calls other := by
    rw [calls]
    by_cases here : other = thread
    · subst here
      simp
    · simp [here]

theorem Acts.calling (thread : Thread) (call : Call) (pipes : after.pipes = process.pipes)
    (calls : after.calls = Function.update process.calls thread call) :
    Acts process after thread [] call :=
  .write_call thread [] call (by simp [pipes]) calls

theorem Acts.write (thread : Thread) (commands : List Command)
    (pipes : after.pipes = Function.update process.pipes thread (process.pipes thread ++ commands))
    (calls : after.calls = process.calls) :
    Acts process after thread commands (process.calls thread) :=
  .write_call thread commands _ pipes (by simp [calls])

theorem Acts.underway (acts : Acts process after thread commands call) {events : List Event}
    {cmd : Command} (under : Underway after events cmd) :
    Underway process events cmd ∨ cmd ∈ commands ∨ commandOf call = some cmd := by
  rcases under with ⟨other, calling⟩ | ⟨other, waiting⟩ | handled
  · rw [acts.calls] at calling
    split at calling
    · exact .inr (.inr calling)
    · exact .inl (.inl ⟨other, calling⟩)
  · rw [acts.pipes] at waiting
    rcases List.mem_append.mp waiting with old | new
    · exact .inl (.inr (.inl ⟨other, old⟩))
    · split at new
      · exact .inr (.inl new)
      · cases new
  · exact .inl (.inr (.inr handled))

theorem Acts.keeps (acts : Acts process after thread commands call) {events : List Event}
    {cmd : Command} (written : commandOf (process.calls thread) = some cmd →
      cmd ∈ commands ∨ commandOf call = some cmd)
    (under : Underway process events cmd) : Underway after events cmd := by
  have calls : commandOf call = some cmd → Underway after events cmd := fun calling =>
    .inl ⟨thread, by rw [acts.calls, if_pos rfl, calling]⟩
  have writes : cmd ∈ commands → Underway after events cmd := fun inside =>
    .inr (.inl ⟨thread, by rw [acts.pipes, if_pos rfl]; exact List.mem_append_right _ inside⟩)
  rcases under with ⟨other, calling⟩ | ⟨other, waiting⟩ | handled
  · by_cases here : other = thread
    · subst here
      rcases written calling with inside | again
      · exact writes inside
      · exact calls again
    · exact .inl ⟨other, by rw [acts.calls, if_neg here, calling]⟩
  · exact .inr (.inl ⟨other, by rw [acts.pipes]; exact List.mem_append_left _ waiting⟩)
  · exact .inr (.inr handled)

end Acts

theorem threadMove_acts {process after : Process} {thread : Thread} {action : ThreadAction}
    {events : List Event} (move : ThreadMove cfg process thread action after events) :
    ∃ commands call, Acts process after thread commands call ∧
      (∀ cmd, cmd ∈ commands ∨ commandOf call = some cmd → (outgoingOf cmd).isSome →
        commandOf (process.calls thread) = some cmd ∨ Born cfg process (.thread thread action) events cmd) ∧
      (∀ cmd, commandOf (process.calls thread) = some cmd → action ≠ .sendRequest false →
        cmd ∈ commands ∨ commandOf call = some cmd) ∧
      ∀ cmd, Born cfg process (.thread thread action) events cmd →
        cmd ∈ commands ∨ commandOf call = some cmd := by
  have unrefused : ∀ {event response}, event ∈ events → refusal cfg event = some response → False := by
    intro event response listed refused
    have spoken := (threadMove_frame move).2.2.2.2 event listed
    rw [isHandling_origin (refusal_isHandling refused)] at spoken
    cases spoken
  have unborn : (∀ report, requestBy process (.thread thread action) ≠ some report) →
      responseOf (.thread thread action) = none →
      ∀ cmd, ¬ Born cfg process (.thread thread action) events cmd := by
    intro unasked unanswered cmd born
    cases born with
    | asked other info service method payload handler timeoutMs same =>
      rw [same] at unasked
      exact unasked _ rfl
    | answered other response same =>
      rw [unanswered] at same
      cases same
    | refused event response listed same => exact unrefused listed same
  cases move with
  | request info service method payload handler timeoutMs idle =>
    refine ⟨[], _, .calling thread _ rfl rfl, fun cmd new _ => .inr ?_, fun cmd calling _ => ?_,
      fun cmd born => .inr ?_⟩
    · rcases new with nothing | calls
      · cases nothing
      · cases calls
        exact .asked thread info service method payload handler timeoutMs rfl
    · rw [idle] at calling
      cases calling
    · cases born with
      | asked other info' service' method' payload' handler' timeoutMs' same =>
        cases same
        rfl
      | answered other response same => cases same
      | refused event response listed same => exact (unrefused listed same).elim
  | reply action info data idle made =>
    refine ⟨_, _, .write thread _ rfl rfl, fun cmd new _ => ?_, fun cmd calling _ => .inr calling,
      fun cmd born => .inl ?_⟩
    · rcases new with inside | calls
      · rw [List.mem_singleton] at inside
        subst inside
        rcases made with ⟨eventId, payload, rfl, rfl⟩ | ⟨eventId, code, text, rfl, rfl⟩
        · exact .inr (.answered thread ⟨info, eventId, .done payload⟩ rfl)
        · exact .inr (.answered thread ⟨info, eventId, .error code text⟩ rfl)
      · exact .inl calls
    · rcases made with ⟨eventId, payload, rfl, rfl⟩ | ⟨eventId, code, text, rfl, rfl⟩ <;>
        cases born with
        | asked other info' service' method' payload' handler' timeoutMs' same => cases same
        | answered other response same =>
          cases same
          exact List.mem_singleton_self _
        | refused event response listed same => exact (unrefused listed same).elim
  | requested info ctrl data inside =>
    refine ⟨_, _, .write_call thread _ _ rfl rfl, fun cmd new _ => .inl ?_, fun cmd calling _ => .inl ?_,
      fun cmd born => absurd born (unborn (by simp [requestBy]) rfl cmd)⟩
    · rcases new with written | calls
      · rw [List.mem_singleton] at written
        rw [inside, written]
        rfl
      · cases calls
    · rw [inside] at calling
      cases calling
      exact List.mem_singleton_self _
  | thrown info ctrl data inside =>
    refine ⟨[], _, .calling thread _ rfl rfl, fun cmd new _ => ?_, fun cmd _ threw => absurd rfl threw,
      fun cmd born => absurd born (unborn (by simp [requestBy]) rfl cmd)⟩
    rcases new with nothing | calls
    · cases nothing
    · cases calls
  | connect endpoint idle | unbind endpoint idle | bind endpoint factories idle
  | serverBind server endpoint endpoints idle =>
    refine ⟨_, _, .write_call thread _ _ rfl rfl, fun cmd new message => ?_, fun cmd calling _ => ?_,
      fun cmd born => absurd born (unborn (by simp [requestBy]) rfl cmd)⟩
    · rcases new with written | calls
      · rw [List.mem_singleton] at written
        subst written
        cases message
      · cases calls
    · rw [idle] at calling
      cases calling
  | nextUnbind server endpoint remaining inside =>
    refine ⟨_, _, .write_call thread _ _ rfl rfl, fun cmd new message => ?_, fun cmd calling _ => ?_,
      fun cmd born => absurd born (unborn (by simp [requestBy]) rfl cmd)⟩
    · rcases new with written | calls
      · rw [List.mem_singleton] at written
        subst written
        cases message
      · cases calls
    · rw [inside] at calling
      cases calling
  | add closure idle | registerService info name svc idle =>
    refine ⟨_, _, .write thread _ rfl rfl, fun cmd new message => ?_, fun cmd calling _ => .inr calling,
      fun cmd born => absurd born (unborn (by simp [requestBy]) rfl cmd)⟩
    rcases new with written | calls
    · rw [List.mem_singleton] at written
      subst written
      cases message
    · exact .inl calls
  | alreadyBound | newServer | registerFactory =>
    exact ⟨[], process.calls thread, .calling thread _ rfl (by simp), fun cmd new _ => .inl (by simpa using new),
      fun cmd calling _ => .inr calling,
      fun cmd born => absurd born (unborn (by simp [requestBy]) rfl cmd)⟩
  | destroyServer server endpoints idle =>
    refine ⟨[], _, .calling thread _ rfl rfl, fun cmd new _ => ?_, fun cmd calling _ => ?_,
      fun cmd born => absurd born (unborn (by simp [requestBy]) rfl cmd)⟩
    · simp [commandOf] at new
    · rw [idle] at calling
      cases calling
  | insertFactories _ _ inside | serverDestroyed _ inside | connected _ _ inside | bound _ _ _ inside
  | unbound _ inside | unboundNext _ _ _ inside =>
    refine ⟨[], _, .calling thread _ rfl rfl, fun cmd new _ => ?_, fun cmd calling _ => ?_,
      fun cmd born => absurd born (unborn (by simp [requestBy]) rfl cmd)⟩
    · simp [commandOf] at new
    · rw [inside] at calling
      cases calling

structure Passing (cfg : Config) (events : List Event) (process after : Process) (action : Action)
    (emitted : List Event) (cmd : Command) : Prop where
  new : Underway after (events ++ emitted) cmd →
    Underway process events cmd ∨ Born cfg process action emitted cmd
  old : (∀ info ctrl data, cmd ≠ .request info ctrl data) → Underway process events cmd →
    Underway after (events ++ emitted) cmd
  born : Born cfg process action emitted cmd → Underway after (events ++ emitted) cmd

section Passing
variable {process after : Process} {events emitted : List Event} {cmd : Command}

theorem Underway.later (under : Underway process events cmd) (more : List Event) :
    Underway process (events ++ more) cmd := by
  rcases under with calling | waiting | ⟨thread, handled⟩
  · exact .inl calling
  · exact .inr (.inl waiting)
  · exact .inr (.inr ⟨thread, List.mem_append_left _ handled⟩)

theorem Underway.earlier (unread : ∀ event ∈ emitted, origin event ≠ .handled)
    (under : Underway process (events ++ emitted) cmd) : Underway process events cmd := by
  rcases under with calling | waiting | ⟨thread, handled⟩
  · exact .inl calling
  · exact .inr (.inl waiting)
  · rcases List.mem_append.mp handled with listed | new
    · exact .inr (.inr ⟨thread, listed⟩)
    · exact absurd rfl (unread _ new)

theorem Passing.still {action : Action} (pipes : after.pipes = process.pipes)
    (calls : after.calls = process.calls) (other : ∀ thread own, action ≠ .thread thread own)
    (elsewhere : ∀ event ∈ emitted, origin event ≠ .handled ∧ origin event ≠ .worker) :
    Passing cfg events process after action emitted cmd := by
  have same : ∀ history, Underway after history cmd ↔ Underway process history cmd := by
    intro history
    unfold Underway
    rw [pipes, calls]
  refine ⟨fun under => .inl ?_, fun _ under => ?_, fun born => ?_⟩
  · exact Underway.earlier (fun event member => (elsewhere event member).1) ((same _).mp under)
  · exact (same _).mpr (under.later emitted)
  · cases born with
    | asked thread info service method payload handler timeoutMs own => exact absurd own (other _ _)
    | answered thread response own =>
      unfold responseOf at own
      split at own
      · exact absurd rfl (other _ _)
      · exact absurd rfl (other _ _)
      · cases own
    | refused event response listed refused =>
      exact absurd (isHandling_origin (refusal_isHandling refused)) (elsewhere event listed).2

theorem Passing.broker {action : Action} {result : Broker × List Event}
    (other : ∀ thread own, action ≠ .thread thread own)
    (silent : ∀ event ∈ result.2, origin event = .broker) :
    Passing cfg events process { process with broker := result.1 } action
      (result.2 ++ queuedEvents result.1.outbox) cmd := by
  refine .still rfl rfl other (fun event member => ?_)
  rcases List.mem_append.mp member with left | right
  · rw [silent event left]
    decide
  · rw [queuedEvents_origin event right]
    decide

theorem passing_of_move (run : Run (ProcessModel.machine cfg) anyStep events process)
    {action : Action} (move : Move cfg process action after emitted)
    (message : (outgoingOf cmd).isSome) : Passing cfg events process after action emitted cmd := by
  cases move with
  | thread thread action after emitted running move =>
    obtain ⟨commands, call, acts, new, old, born⟩ := threadMove_acts move
    have unread : ∀ event ∈ emitted, origin event ≠ .handled := by
      intro event member
      rw [(threadMove_frame move).2.2.2.2 event member]
      decide
    have sends : cmd ∈ commands ∨ commandOf call = some cmd → Underway after (events ++ emitted) cmd := by
      rintro (written | calling)
      · exact .inr (.inl ⟨thread, by
          rw [acts.pipes, if_pos rfl]
          exact List.mem_append_right _ written⟩)
      · exact .inl ⟨thread, by rw [acts.calls, if_pos rfl, calling]⟩
    refine ⟨fun under => ?_, fun reply under => ?_, fun own => sends (born cmd own)⟩
    · rcases acts.underway (under.earlier unread) with earlier | own
      · exact .inl earlier
      · rcases new cmd own message with calling | born
        · exact .inl (.inl ⟨thread, calling⟩)
        · exact .inr born
    · apply Underway.later
      refine acts.keeps (fun calling => ?_) under
      unfold commandOf at calling
      split at calling
      · exact absurd (Option.some.inj calling).symm (reply _ _ _)
      · cases calling
  | loopTop => exact .broker (by simp) (loopTop_origin _)
  | timers => exact .broker (by simp) (runTimers_origin _ _ _)
  | poll => exact .broker (by simp) (afterPoll_origin _ _)
  | finished | quiet => exact .still rfl rfl (by simp) (by simp)
  | outOfRange => exact .still rfl rfl (by simp) (by simp [origin])
  | message i callback frames phase performed slot network nonempty result same =>
    exact .broker (by simp) (same ▸ receive_origin _ _ _ _)
  | flush output rest live unperformed =>
    refine .still ?_ ?_ (by simp) (fun event member => ?_)
    · cases output with
      | push | reply => rfl
      | send info socket frames cause =>
        simp only [Process.perform]
        split <;> rfl
    · cases output with
      | push | reply => rfl
      | send info socket frames cause =>
        simp only [Process.perform]
        split <;> rfl
    · rw [perform_origin _ _ event member]
      decide
  | joinBroker | joinWorkers => exact .still rfl rfl (by simp) (by simp [origin])
  | release thread =>
    have acts : Acts process { process.write (.app thread) [.quit] with shutdown := .joiningBroker }
        (.app thread) [.quit] (process.calls (.app thread)) := .write _ _ rfl rfl
    refine ⟨fun under => ?_, fun _ under => ?_, fun born => ?_⟩
    · rcases acts.underway (under.earlier (by simp [origin])) with earlier | written | calling
      · exact .inl earlier
      · rw [List.mem_singleton] at written
        subst written
        cases message
      · exact .inl (.inl ⟨_, calling⟩)
    · exact (acts.keeps .inr under).later _
    · cases born with
      | asked _ _ _ _ _ _ _ own => cases own
      | answered _ _ own => cases own
      | refused event response listed refused =>
        rw [List.mem_singleton] at listed
        subst listed
        cases refused
  | command i sender oracle read rest phase performed slot unread result same =>
    have silent : ∀ event ∈ result.2 ++ queuedEvents result.1.outbox,
        origin event ≠ .handled ∧ origin event ≠ .worker := by
      intro event member
      rcases List.mem_append.mp member with left | right
      · have reported : ∀ event ∈ result.2, origin event = .broker :=
          same ▸ handleCommand_origin _ _ _ _ _
        rw [reported event left]
        decide
      · rw [queuedEvents_origin event right]
        decide
    have pipe : ∀ thread, process.pipes thread =
        (if thread = sender then [read] else []) ++ Function.update process.pipes sender rest thread := by
      intro thread
      by_cases here : thread = sender
      · subst here
        simp [unread]
      · simp [here]
    refine ⟨fun under => .inl ?_, fun _ under => ?_, fun born => ?_⟩
    · rcases under with calling | ⟨thread, waiting⟩ | ⟨thread, handled⟩
      · exact .inl calling
      · refine .inr (.inl ⟨thread, ?_⟩)
        rw [pipe]
        exact List.mem_append_right _ waiting
      · rcases List.mem_append.mp handled with listed | new
        · exact .inr (.inr ⟨thread, listed⟩)
        · rcases List.mem_cons.mp new with first | later
          · cases first
            exact .inr (.inl ⟨sender, by rw [unread]; exact List.mem_cons_self⟩)
          · exact absurd rfl (silent _ later).1
    · rcases under with calling | ⟨thread, waiting⟩ | ⟨thread, handled⟩
      · exact .inl calling
      · rw [pipe] at waiting
        rcases List.mem_append.mp waiting with taken | kept
        · split at taken
          · rw [List.mem_singleton] at taken
            subst taken
            exact .inr (.inr ⟨sender, List.mem_append_right _ List.mem_cons_self⟩)
          · cases taken
        · exact .inr (.inl ⟨thread, kept⟩)
      · exact .inr (.inr ⟨thread, List.mem_append_left _ handled⟩)
    · cases born with
      | asked _ _ _ _ _ _ _ own => cases own
      | answered _ _ own => cases own
      | refused event response listed refused =>
        have worker := isHandling_origin (refusal_isHandling refused)
        rcases List.mem_cons.mp listed with rfl | later
        · cases worker
        · exact absurd worker (silent _ later).2
  | worker index cmd' rest legal running idle unread result same =>
    have acts : Acts process { process.write (.worker index) result.writes with
        workers := Function.update process.workers index result.worker
        nextService := result.fresh } (.worker index) result.writes
          (process.calls (.worker index)) := .write _ _ rfl rfl
    have kept : HandlerCache.Cached index events
        { process.workers index with queue := rest }.handlers := HandlerCache.cached_of_run run index
    have writes : result.writes =
        (result.events.filterMap (refusal cfg)).map (Response.command cfg.proto) := by
      rw [← same]
      exact exec_refuses process.factories process.nextService kept cmd'
    have silent : ∀ event ∈ .popped index cmd' :: result.events, origin event ≠ .handled := by
      intro event member
      rcases List.mem_cons.mp member with rfl | later
      · simp [origin]
      · rw [← same] at later
        rw [exec_origin _ _ _ _ _ _ _ later]
        decide
    refine ⟨fun under => ?_, fun _ under => ?_, fun born => ?_⟩
    · rcases acts.underway (under.earlier silent) with earlier | written | calling
      · exact .inl earlier
      · rw [writes] at written
        obtain ⟨response, listed, rfl⟩ := List.mem_map.mp written
        obtain ⟨event, inside, refused⟩ := List.mem_filterMap.mp listed
        exact .inr (.refused event response (List.mem_cons_of_mem _ inside) refused)
      · exact .inl (.inl ⟨_, calling⟩)
    · exact (acts.keeps .inr under).later _
    · cases born with
      | asked _ _ _ _ _ _ _ own => cases own
      | answered _ _ own => cases own
      | refused event response listed refused =>
        refine .inr (.inl ⟨.worker index, ?_⟩)
        rw [acts.pipes, if_pos rfl, writes]
        apply List.mem_append_right
        apply List.mem_map_of_mem
        rcases List.mem_cons.mp listed with rfl | later
        · cases refused
        · exact List.mem_filterMap.mpr ⟨event, later, refused⟩

end Passing

theorem Born.meant {process : Process} {action : Action} {events : List Event} {cmd : Command}
    (born : Born cfg process action events cmd) :
    Meant cfg (said process action ++ events.map .event) cmd := by
  cases born with
  | asked thread info service method payload handler timeoutMs same =>
    subst same
    exact ⟨thread, service, method, payload,
      List.mem_append_left _ (mem_said.mpr (.inl rfl)), rfl⟩
  | answered thread response same =>
    refine ⟨response, .inl ⟨thread, ?_⟩, rfl⟩
    exact List.mem_append_left _ (mem_said.mpr (.inr ⟨thread, response, same, rfl⟩))
  | refused event response listed same =>
    refine ⟨response, .inr ⟨event, ?_, same⟩, rfl⟩
    rw [eventsIn_append, eventsIn_events]
    exact List.mem_append_right _ listed

theorem underway_meant (run : Run (machine cfg) allowed reports member) {cmd : Command}
    (message : (outgoingOf cmd).isSome) (under : Underway member.process (eventsIn reports) cmd) :
    Meant cfg reports cmd := by
  refine Steps.invariant (fun reports member =>
    Underway member.process (eventsIn reports) cmd → Meant cfg reports cmd) ?_ ?_ run under
  · rintro (⟨thread, calling⟩ | ⟨thread, waiting⟩ | ⟨thread, handled⟩)
    · cases calling
    · cases waiting
    · cases handled
  · intro reports member action emitted after earlier known _ fired under
    obtain ⟨events, stepped, _, rfl, _⟩ := step_cases fired
    have passing := passing_of_move (project_run earlier) (step_move stepped) message
    rw [eventsIn_append, eventsIn_append, eventsIn_said, eventsIn_events, List.nil_append] at under
    rcases passing.new under with older | born
    · exact (known older).mono (List.subset_append_left _ _)
    · exact born.meant.mono (List.subset_append_right _ _)

/-! ## What was asked -/

theorem request_fetches {process after : Process} {thread : Thread} {info : ConnectionInfo}
    {service method payload : Bytes} {handler : Option Nat} {timeoutMs : Int64} {events : List Event}
    (move : Move cfg process (.thread thread (.request info service method payload handler timeoutMs))
      after events) :
    events = [.fetched thread info ⟨process.requests, process.nextEventId, handler, timeoutMs⟩] := by
  cases move with
  | thread _ _ _ _ _ move =>
    cases move with
    | request => rfl
    | reply _ _ _ _ made => rcases made with ⟨_, _, same, _⟩ | ⟨_, _, _, same, _⟩ <;> cases same

theorem asked_issued (run : Run (machine cfg) allowed reports member) {thread : Thread}
    {info : ConnectionInfo} {ctrl : Controller} {service method payload : Bytes}
    (asked : .asked thread info ctrl service method payload ∈ reports) :
    ⟨thread, info, ctrl⟩ ∈ issued (eventsIn reports) := by
  refine Steps.invariant (fun reports _ => .asked thread info ctrl service method payload ∈ reports →
    ⟨thread, info, ctrl⟩ ∈ issued (eventsIn reports)) (by simp) ?_ run asked
  intro reports member action emitted after _ known _ fired asked
  obtain ⟨events, stepped, _, rfl, _⟩ := step_cases fired
  rw [eventsIn_append, eventsIn_append, eventsIn_said, eventsIn_events, List.nil_append,
    issued_append]
  rcases List.mem_append.mp asked with old | new
  · exact List.mem_append_left _ (known old)
  · apply List.mem_append_right
    rcases List.mem_append.mp new with spoken | happened
    · rcases mem_said.mp spoken with asks | ⟨_, _, _, same⟩
      · unfold requestBy at asks
        split at asks
        · cases asks
          rw [request_fetches (step_move stepped)]
          exact List.mem_singleton_self _
        · cases asks
      · cases same
    · obtain ⟨event, _, same⟩ := List.mem_map.mp happened
      cases same

theorem asked_once (run : Run (machine cfg) allowed reports member) {thread other : Thread}
    {info info' : ConnectionInfo} {ctrl : Controller}
    {service method payload service' method' payload' : Bytes}
    (first : .asked thread info ctrl service method payload ∈ reports)
    (second : .asked other info' ctrl service' method' payload' ∈ reports) :
    Report.asked thread info ctrl service method payload =
      .asked other info' ctrl service' method' payload' := by
  refine Steps.invariant (fun reports _ => .asked thread info ctrl service method payload ∈ reports →
    .asked other info' ctrl service' method' payload' ∈ reports →
    Report.asked thread info ctrl service method payload =
      .asked other info' ctrl service' method' payload') (by simp) ?_ run first second
  intro reports member action emitted after earlier known _ fired first second
  obtain ⟨events, _, _, rfl, _⟩ := step_cases fired
  have ledger := ledger_of_run (project_run earlier)
  have asks : ∀ {thread info service method payload}, .asked thread info ctrl service method payload ∈
      said member.process action ++ events.map .event →
      requestBy member.process action = some (.asked thread info ctrl service method payload) := by
    intro thread info service method payload new
    rcases List.mem_append.mp new with spoken | happened
    · rcases mem_said.mp spoken with asks | ⟨_, _, _, same⟩
      · exact asks
      · cases same
    · obtain ⟨event, _, same⟩ := List.mem_map.mp happened
      cases same
  have fresh : ∀ {thread info service method payload},
      requestBy member.process action = some (.asked thread info ctrl service method payload) →
        ctrl.serial = member.process.requests := by
    intro thread info service method payload asks
    unfold requestBy at asks
    split at asks <;> cases asks
    rfl
  have older : ∀ {thread info service method payload},
      .asked thread info ctrl service method payload ∈ reports →
        ctrl.serial < member.process.requests := by
    intro thread info service method payload old
    exact ledger.serial_lt (asked_issued earlier old)
  rcases List.mem_append.mp first with old | new <;> rcases List.mem_append.mp second with old' | new'
  · exact known old old'
  · exact absurd (fresh (asks new')) (Nat.ne_of_lt (older old))
  · exact absurd (fresh (asks new)) (Nat.ne_of_lt (older old'))
  · exact Option.some.inj ((asks new).symm.trans (asks new'))

def actor : Action → Option Thread
  | .thread thread _ => some thread
  | .worker index => some (.worker index)
  | .release thread => some (.app thread)
  | _ => none

theorem idle_of_run {permitted : Process → Action → Prop} {process : Process} {events : List Event}
    (run : Run (ProcessModel.machine cfg) permitted events process) {thread : Thread}
    (inactive : ∀ process action, permitted process action → actor action ≠ some thread) :
    process.pipes thread = [] ∧ process.calls thread = .idle := by
  refine Steps.invariant (fun _ process => process.pipes thread = [] ∧ process.calls thread = .idle)
    ⟨rfl, rfl⟩ ?_ run
  intro events process action emitted after _ idle granted fired
  have other := inactive process action granted
  cases step_move fired with
  | thread mover action after emitted running move =>
    obtain ⟨commands, call, acts, _⟩ := threadMove_acts move
    have apart : thread ≠ mover := fun same => other (congrArg some same.symm)
    rw [acts.pipes, acts.calls, if_neg apart, if_neg apart, List.append_nil]
    exact idle
  | loopTop | timers | poll | finished | quiet | outOfRange | message | joinBroker | joinWorkers =>
    exact idle
  | command i sender oracle cmd rest phase performed slot unread result same =>
    have apart : thread ≠ sender := by
      rintro rfl
      rw [idle.1] at unread
      cases unread
    exact ⟨(Function.update_of_ne apart ..).trans idle.1, idle.2⟩
  | flush output rest live unperformed =>
    cases output with
    | push | reply => exact idle
    | send info socket frames cause =>
      simp only [Process.perform]
      split <;> exact idle
  | worker index cmd rest legal running idle' unread result same =>
    have apart : thread ≠ .worker index := fun same => other (congrArg some same.symm)
    exact ⟨(Function.update_of_ne apart ..).trans idle.1, idle.2⟩
  | release mover =>
    have apart : thread ≠ .app mover := fun same => other (congrArg some same.symm)
    exact ⟨(Function.update_of_ne apart ..).trans idle.1, idle.2⟩

theorem responds_underway (run : Run (machine cfg) allowed reports member) {response : Response}
    (responds : Responds cfg reports response) :
    Underway member.process (eventsIn reports) (response.command cfg.proto) := by
  refine Steps.invariant (fun reports member => Responds cfg reports response →
    Underway member.process (eventsIn reports) (response.command cfg.proto)) ?_ ?_ run responds
  · rintro (⟨thread, answered⟩ | ⟨event, listed, _⟩)
    · cases answered
    · cases listed
  · intro reports member action emitted after earlier known granted fired responds
    obtain ⟨events, stepped, _, rfl, _⟩ := step_cases fired
    have passing : Passing cfg _ _ _ _ _ (response.command cfg.proto) :=
      passing_of_move (project_run earlier) (step_move stepped) rfl
    have kept : Responds cfg reports response → Underway after.process
        (eventsIn (reports ++ (said member.process action ++ events.map .event)))
          (response.command cfg.proto) := by
      intro older
      rw [eventsIn_append, eventsIn_append, eventsIn_said, eventsIn_events, List.nil_append]
      exact passing.old (by simp [Response.command]) (known older)
    have born : Born cfg member.process action events (response.command cfg.proto) →
        Underway after.process (eventsIn (reports ++ (said member.process action ++ events.map .event)))
          (response.command cfg.proto) := by
      intro new
      rw [eventsIn_append, eventsIn_append, eventsIn_said, eventsIn_events, List.nil_append]
      exact passing.born new
    rcases responds with ⟨thread, answered⟩ | ⟨event, listed, refused⟩
    · rcases List.mem_append.mp answered with old | new
      · exact kept (.inl ⟨thread, old⟩)
      · rcases List.mem_append.mp new with spoken | happened
        · rcases mem_said.mp spoken with asks | ⟨_, _, answers, same⟩
          · unfold requestBy at asks
            split at asks <;> cases asks
          · cases same
            exact born (.answered thread response answers)
        · obtain ⟨event, _, same⟩ := List.mem_map.mp happened
          cases same
    · rw [eventsIn_append, eventsIn_append, eventsIn_said, eventsIn_events, List.nil_append] at listed
      rcases List.mem_append.mp listed with old | new
      · exact kept (.inr ⟨event, old, refused⟩)
      · exact born (.refused event response new refused)

end Rpcz.UserCode
