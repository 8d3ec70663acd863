import Rpcz.CallOrder
import Rpcz.RemoteProcedure

/-!
A network of processes carries out remote procedure calls: what happens in it,
as far as its users see it, is a history of the calls that are asked, served,
answered and completed.
-/

namespace Rpcz.CallProtocol
open Automaton Message EventLog RequestHandlers ProcessModel Moves EventIds History ConnectionHome
  Completion ResponseSource Dispatching UserCode FifoNetwork Network CallOrder RemoteProcedure
open RemoteCalls

abbrev Call := Nat × UInt64

abbrev Asked := Bytes × Bytes × Bytes

/-- The call that is known to the other end of a connection by its event id. -/
def callAt (world : World) (far : End) (eventId : UInt64) : Option Call :=
  (world.peer far).map fun near => (near.1, eventId)

def eventActs (world : World) (node : Nat) (event : Event) : List (Act Call Asked Outcome) :=
  match event with
  | .completed _ ctrl outcome => [.complete (node, ctrl.eventId) outcome]
  | .dispatched info eventId name _ method payload =>
    (callAt world (node, info) eventId).toList.flatMap fun call =>
      .serve call (name, method, payload) ::
        ((refusal (world.config node) event).map fun response => .answer call response.outcome).toList
  | .noSuchService info eventId _ =>
    (callAt world (node, info) eventId).toList.flatMap fun call =>
      ((refusal (world.config node) event).map fun response => .reject call response.outcome).toList
  | _ => []

def reportActs (world : World) (node : Nat) : Report → List (Act Call Asked Outcome)
  | .asked _ _ ctrl service method payload =>
    [.ask (node, ctrl.eventId) (service, method, payload) (ctrl.timeoutMs ≠ -1)]
  | .answered _ response =>
    (callAt world (node, response.info) response.eventId).toList.map fun call =>
      .answer call response.outcome
  | .event event => eventActs world node event

def itemActs (world : World) : Item Nat ConnectionInfo (List Frame) Report →
    List (Act Call Asked Outcome)
  | .took _ _ => []
  | .event node report => reportActs world node report

def acts (world : World) (log : Log) : List (Act Call Asked Outcome) :=
  log.flatMap (itemActs world)

theorem singleton_split {Element : Type} {one element : Element} {before rest : List Element}
    (split : [one] = before ++ element :: rest) : before = [] ∧ element = one := by
  cases before with
  | nil => exact ⟨rfl, (List.cons.inj split).1.symm⟩
  | cons first later =>
    have short := congrArg List.length split
    simp at short

section Acts
variable {world : World} {log : Log} {act : Act Call Asked Outcome}

theorem acts_mono {more : Log} (kept : log ⊆ more) : acts world log ⊆ acts world more := by
  intro act listed
  obtain ⟨item, member, shown⟩ := List.mem_flatMap.mp listed
  exact List.mem_flatMap.mpr ⟨item, kept member, shown⟩

theorem mem_acts : act ∈ acts world log ↔
    ∃ node report, report ∈ eventsAt node log ∧ act ∈ reportActs world node report := by
  constructor
  · intro listed
    obtain ⟨item, member, shown⟩ := List.mem_flatMap.mp listed
    cases item with
    | took => cases shown
    | event node report => exact ⟨node, report, mem_eventsAt.mpr member, shown⟩
  · intro known
    obtain ⟨node, report, member, shown⟩ := known
    exact List.mem_flatMap.mpr ⟨_, mem_eventsAt.mp member, shown⟩

theorem acts_split {before rest : List (Act Call Asked Outcome)}
    (split : acts world log = before ++ act :: rest) :
    ∃ front node report back pre post, log = front ++ .event node report :: back ∧
      reportActs world node report = pre ++ act :: post ∧ before = acts world front ++ pre := by
  induction log generalizing before with
  | nil =>
    have empty := congrArg List.length split
    simp [acts] at empty
  | cons item log ih =>
    have first : acts world (item :: log) = itemActs world item ++ acts world log := rfl
    rw [first] at split
    rcases append_split split with ⟨post, own, -⟩ | ⟨gap, own, later⟩
    · cases item with
      | took =>
        have empty := congrArg List.length own
        simp [itemActs] at empty
      | event node report => exact ⟨[], node, report, log, before, post, rfl, own, rfl⟩
    · obtain ⟨front, node, report, back, pre, post, whole, shown, same⟩ := ih later
      refine ⟨item :: front, node, report, back, pre, post, by rw [whole]; rfl, shown, ?_⟩
      rw [own, same, ← List.append_assoc]
      rfl

theorem callAt_eq {near far : End} (linked : world.peer near = some far) (eventId : UInt64) :
    callAt world far eventId = some (near.1, eventId) := by
  rw [callAt, world.symmetric near far linked]
  rfl

theorem callAt_some {far : End} {eventId : UInt64} {call : Call}
    (known : callAt world far eventId = some call) :
    ∃ near, world.peer near = some far ∧ call = (near.1, eventId) := by
  obtain ⟨near, linked, same⟩ := Option.map_eq_some_iff.mp known
  exact ⟨near, world.symmetric far near linked, same.symm⟩

/-! ## Which reports show an act -/

theorem ask_report {node : Nat} {report : Report} {call : Call} {request : Asked} {timed : Bool}
    (shown : .ask call request timed ∈ reportActs world node report) :
    ∃ thread info ctrl service method payload,
      report = .asked thread info ctrl service method payload ∧ call = (node, ctrl.eventId) ∧
        request = (service, method, payload) ∧ timed = decide (ctrl.timeoutMs ≠ -1) := by
  cases report with
  | asked thread info ctrl service method payload =>
    rw [reportActs, List.mem_singleton] at shown
    cases shown
    exact ⟨thread, info, ctrl, service, method, payload, rfl, rfl, rfl, rfl⟩
  | answered thread response =>
    obtain ⟨other, -, same⟩ := List.mem_map.mp shown
    cases same
  | event event => cases event <;> simp [reportActs, eventActs] at shown

theorem complete_report {node : Nat} {report : Report} {call : Call} {outcome : Outcome}
    (shown : .complete call outcome ∈ reportActs world node report) :
    ∃ worker ctrl, report = .event (.completed worker ctrl outcome) ∧
      call = (node, ctrl.eventId) := by
  cases report with
  | asked thread info ctrl service method payload => simp [reportActs] at shown
  | answered thread response =>
    obtain ⟨other, -, same⟩ := List.mem_map.mp shown
    cases same
  | event event =>
    cases event <;> simp [reportActs, eventActs] at shown
    case completed worker ctrl given =>
      obtain ⟨rfl, rfl⟩ := shown
      exact ⟨worker, ctrl, rfl, rfl⟩

def TakesUp (call : Call) (act : Act Call Asked Outcome) : Prop :=
  (∃ request, act = .serve call request) ∨ ∃ outcome, act = .reject call outcome

theorem takesUp_report {node : Nat} {report : Report} {call : Call}
    (shown : act ∈ reportActs world node report) (takes : TakesUp call act) :
    ∃ event info eventId name, report = .event event ∧ isHandling event = true ∧
      service info event = some (eventId, name) ∧ callAt world (node, info) eventId = some call := by
  cases report with
  | asked thread info ctrl service method payload =>
    rcases takes with ⟨request, rfl⟩ | ⟨outcome, rfl⟩ <;> simp [reportActs] at shown
  | answered thread response =>
    obtain ⟨other, -, same⟩ := List.mem_map.mp shown
    rcases takes with ⟨request, rfl⟩ | ⟨outcome, rfl⟩ <;> cases same
  | event event =>
    cases event with
    | dispatched info eventId name svc method payload =>
      obtain ⟨other, known, inside⟩ := List.mem_flatMap.mp shown
      refine ⟨_, info, eventId, name, rfl, rfl, if_pos rfl, ?_⟩
      rcases takes with ⟨request, rfl⟩ | ⟨outcome, rfl⟩
      · rcases List.mem_cons.mp inside with same | refused
        · cases same
          exact Option.mem_toList.mp known
        · simp at refused
      · simp at inside
    | noSuchService info eventId name =>
      obtain ⟨other, known, inside⟩ := List.mem_flatMap.mp shown
      refine ⟨_, info, eventId, name, rfl, rfl, if_pos rfl, ?_⟩
      rcases takes with ⟨request, rfl⟩ | ⟨outcome, rfl⟩
      · simp at inside
      · obtain ⟨response, -, same⟩ := Option.map_eq_some_iff.mp (Option.mem_toList.mp inside)
        cases same
        exact Option.mem_toList.mp known
    | _ => rcases takes with ⟨request, rfl⟩ | ⟨outcome, rfl⟩ <;> simp [reportActs, eventActs] at shown

/-! ## The acts of a report -/

theorem answers_acts {near far : End} (linked : world.peer near = some far) {eventId : UInt64}
    {service method payload : Bytes} {outcome : Outcome}
    (answered : AnsweredBy (world.config far.1) (eventsAt far.1 log)
      ⟨far.2, eventId, service, method, payload⟩ outcome) :
    .answer (near.1, eventId) outcome ∈ acts world log ∨
      .reject (near.1, eventId) outcome ∈ acts world log := by
  have known := callAt_eq linked eventId
  have replied : ∀ thread, .answered thread ⟨far.2, eventId, outcome⟩ ∈ eventsAt far.1 log →
      .answer (near.1, eventId) outcome ∈ acts world log := by
    intro thread listed
    refine mem_acts.mpr ⟨far.1, _, listed, ?_⟩
    rw [reportActs, known]
    exact List.mem_singleton_self _
  have refused : ∀ svc given, .dispatched far.2 eventId service svc method payload ∈
        eventsIn (eventsAt far.1 log) →
      refusal (world.config far.1) (.dispatched far.2 eventId service svc method payload) =
        some ⟨far.2, eventId, given⟩ → .answer (near.1, eventId) given ∈ acts world log := by
    intro svc given listed refuses
    refine mem_acts.mpr ⟨far.1, _, mem_eventsIn.mp listed, ?_⟩
    rw [reportActs, eventActs, known, refuses]
    simp
  cases answered with
  | unknownService looked =>
    right
    refine mem_acts.mpr ⟨far.1, _, mem_eventsIn.mp looked, ?_⟩
    rw [reportActs, eventActs, known]
    simp [refusal]
  | unknownMethod svc table dispatched found missing =>
    exact .inl (refused svc _ dispatched (by simp [refusal, found, missing]))
  | invalidMessage svc table descriptor dispatched found named unreadable =>
    exact .inl (refused svc _ dispatched (by simp [refusal, found, named, unreadable]))
  | method svc table descriptor dispatched found named parses called thread _ said =>
    exact .inl (replied thread said)
  | service svc dispatched custom thread _ said => exact .inl (replied thread said)

theorem asked_acts {node : Nat} {thread : Thread} {info : ConnectionInfo} {ctrl : Controller}
    {service method payload : Bytes}
    (asked : .asked thread info ctrl service method payload ∈ eventsAt node log) :
    .ask (node, ctrl.eventId) (service, method, payload) (ctrl.timeoutMs ≠ -1) ∈ acts world log :=
  mem_acts.mpr ⟨node, _, asked, List.mem_singleton_self _⟩

theorem dispatched_acts {near far : End} (linked : world.peer near = some far) {eventId : UInt64}
    {name method payload : Bytes} {svc : Service}
    (dispatched : .dispatched far.2 eventId name svc method payload ∈ happened far.1 log) :
    .serve (near.1, eventId) (name, method, payload) ∈ acts world log := by
  refine mem_acts.mpr ⟨far.1, _, mem_eventsIn.mp dispatched, ?_⟩
  rw [reportActs, eventActs, callAt_eq linked]
  simp

end Acts

theorem eventsAt_at (front back : Log) (node : Nat) (report : Report) :
    eventsAt node (front ++ .event node report :: back) =
      eventsAt node front ++ report :: eventsAt node back := by
  rw [eventsAt_append]
  congr 1
  simp [eventsAt]

theorem happened_at (front back : Log) (node : Nat) (event : Event) :
    happened node (front ++ .event node (.event event) :: back) =
      happened node front ++ event :: happened node back := by
  rw [happened, eventsAt_at, eventsIn_append]
  rfl

theorem handled_before {cfg : Config} {process after : Process} {events emitted : List Event}
    {permitted : Process → Action → Prop} {action : Action}
    (run : Run (ProcessModel.machine cfg) permitted events process)
    (fired : (ProcessModel.machine cfg).step process action = some (after, emitted)) {event : Event}
    (member : event ∈ emitted) (handles : isHandling event = true) :
    ∃ header request found, .arrived request.info header request.payload ∈ events ∧
      requestData cfg (.handleData request.info header request.payload) = some request ∧
      event ∈ handling cfg request found := by
  obtain ⟨index, header, request, -, popped, carries, -, own, -⟩ :=
    handling_step run fired member handles
  obtain ⟨rest, result, queue, -⟩ := popped_move (step_move fired) popped
  have caused := queue_caused run (by rw [queue]; exact List.mem_cons_self)
  exact ⟨header, request, _, caused.2, carries, own event member handles⟩

def askedIds (reports : List Report) : List UInt64 :=
  reports.filterMap fun
    | .asked _ _ ctrl _ _ _ => some ctrl.eventId
    | _ => none

theorem mem_askedIds {reports : List Report} {eventId : UInt64} (listed : eventId ∈ askedIds reports) :
    ∃ thread info ctrl service method payload,
      .asked thread info ctrl service method payload ∈ reports ∧ ctrl.eventId = eventId := by
  obtain ⟨report, member, shown⟩ := List.mem_filterMap.mp listed
  cases report with
  | asked thread info ctrl service method payload =>
    cases shown
    exact ⟨thread, info, ctrl, service, method, payload, member, rfl⟩
  | answered | event => cases shown

theorem askedIds_said (process : Process) (action : Action) (events : List Event) :
    askedIds (said process action ++ events.map .event) = [] ∨
      askedIds (said process action ++ events.map .event) = [process.nextEventId] := by
  have silent : askedIds (events.map .event) = [] := by
    simp [askedIds, List.filterMap_map]
  have apart : askedIds (said process action ++ events.map .event) =
      askedIds (said process action) := by
    rw [askedIds, List.filterMap_append]
    change _ ++ askedIds (events.map .event) = _
    rw [silent, List.append_nil]
    rfl
  rw [apart]
  cases action with
  | thread thread call =>
    cases call with
    | request info service method payload handler timeoutMs => exact .inr rfl
    | _ => exact .inl rfl
  | _ => exact .inl rfl

theorem askedIds_nodup {cfg : Config} {member : Member} {reports : List Report}
    {permitted : Member → Action → Prop} (run : Run (UserCode.machine cfg) permitted reports member)
    (few : (issued (eventsIn reports)).length < 2 ^ 64) : (askedIds reports).Nodup := by
  refine run.invariant (fun reports _ => (issued (eventsIn reports)).length < 2 ^ 64 →
    (askedIds reports).Nodup) (fun _ => List.nodup_nil) ?_ few
  intro reports member action emitted after earlier known permitted fired few
  obtain ⟨events, stepped, -, made, -⟩ := step_cases fired
  rw [eventsIn_append, issued_append, List.length_append] at few
  have ledger := ledger_of_run (project_run earlier)
  have low : (issued (eventsIn reports)).length < 2 ^ 64 := by omega
  have whole : askedIds (reports ++ emitted) = askedIds reports ++ askedIds emitted :=
    List.filterMap_append
  rw [whole, made]
  rcases askedIds_said member.process action events with none | one
  · rw [none, List.append_nil]
    exact known low
  · rw [one]
    apply List.nodup_append.mpr
    refine ⟨known low, List.nodup_singleton _, ?_⟩
    intro eventId listed other fresh same
    rw [List.mem_singleton] at fresh
    obtain ⟨thread, info, ctrl, service, method, payload, asked, own⟩ := mem_askedIds listed
    have made := asked_issued earlier asked
    have serial := ledger.serial_lt made
    have bound : member.process.requests < 2 ^ 64 := ledger.length ▸ low
    have id := ledger.ids _ made
    have next := ledger.next
    have equal : eventIdOf ctrl.serial = eventIdOf member.process.requests := by
      rw [← id, own, same, fresh, next]
    exact Nat.ne_of_lt serial (eventIdOf_injective (Nat.lt_trans serial bound) bound equal)

section Run
variable {world : World} {net : Net} {log : Log} {allowed : Net → Nat × Action → Prop}
  (run : Run (Network.machine world) allowed log net)
include run

theorem report_step {front back : Log} {node : Nat} {report : Report}
    (split : log = front ++ .event node report :: back) :
    ∃ earlier state action member reports, Run (Network.machine world) allowed earlier state ∧
      earlier ⊆ front ∧
      (UserCode.machine (world.config node)).step (state.state node) action = some (member, reports) ∧
      report ∈ reports := by
  subst split
  obtain ⟨earlier, pre, post, later, state, turn, after, stem, permitted, fired, same, -, -⟩ :=
    run.occurs
  obtain ⟨mover, action⟩ := turn
  obtain ⟨member, reports, taken, emission, step⟩ := world.wiring.turn fired
  have listed : .event node report ∈ taken ++ reports.map (.event mover) := by
    rw [← emission]
    exact List.mem_append_right _ List.mem_cons_self
  obtain ⟨own, inside⟩ := step.mem_events listed
  subst own
  refine ⟨earlier, state, action, member, reports, stem, ?_, step.fired, inside⟩
  rw [same]
  exact List.subset_append_left _ _

theorem event_step {front back : Log} {node : Nat} {event : Event}
    (split : log = front ++ .event node (.event event) :: back) :
    ∃ earlier state action after events, Run (Network.machine world) allowed earlier state ∧
      earlier ⊆ front ∧
      (ProcessModel.machine (world.config node)).step (state.state node).process action =
        some (after, events) ∧ event ∈ events := by
  obtain ⟨earlier, state, action, member, reports, stem, kept, fired, listed⟩ :=
    report_step run split
  obtain ⟨events, stepped, -, made, -⟩ := step_cases fired
  refine ⟨earlier, state, action, member.process, events, stem, kept, stepped, ?_⟩
  have inside : event ∈ eventsIn reports := mem_eventsIn.mpr listed
  rw [made, eventsIn_append, eventsIn_said, eventsIn_events, List.nil_append] at inside
  exact inside

theorem handled_asked {front back : Log} {node : Nat} {event : Event}
    (split : log = front ++ .event node (.event event) :: back) (handles : isHandling event = true) :
    ∃ near request found thread ctrl, world.peer near = some (node, request.info) ∧
      ctrl.eventId = request.eventId ∧ event ∈ handling (world.config node) request found ∧
      .asked thread near.2 ctrl request.service request.method request.payload ∈
        eventsAt near.1 front := by
  obtain ⟨earlier, state, action, after, events, stem, kept, fired, member⟩ := event_step run split
  obtain ⟨header, request, found, arrived, carries, own⟩ :=
    handled_before (process_run stem node) fired member handles
  obtain ⟨near, thread, ctrl, linked, same, asked, -⟩ := arrived_asked stem arrived carries
  exact ⟨near, request, found, thread, ctrl, linked, same, own, eventsAt_mono kept asked⟩

theorem asked_fresh {front back : Log} {node : Nat} {thread : Thread} {info : ConnectionInfo}
    {ctrl : Controller} {service method payload : Bytes}
    (few : (issued (happened node log)).length < 2 ^ 64)
    (split : log = front ++ .event node (.asked thread info ctrl service method payload) :: back)
    (request : Asked) (timed : Bool) :
    .ask (node, ctrl.eventId) request timed ∉ acts world front := by
  intro listed
  obtain ⟨other, report, inside, shown⟩ := mem_acts.mp listed
  obtain ⟨thread', info', ctrl', service', method', payload', rfl, same, -, -⟩ := ask_report shown
  obtain ⟨rfl, own⟩ := Prod.mk.injEq .. ▸ same
  have distinct := askedIds_nodup (member_run run node) few
  rw [split, eventsAt_at, askedIds, List.filterMap_append] at distinct
  have first : ctrl.eventId ∈ askedIds (eventsAt node front) := by
    apply List.mem_filterMap.mpr
    exact ⟨_, inside, by rw [own]⟩
  have second : ctrl.eventId ∈ askedIds
      (.asked thread info ctrl service method payload :: eventsAt node back) := by
    rw [askedIds, List.filterMap_cons]
    exact List.mem_cons_self
  exact (List.nodup_append.mp distinct).2.2 _ first _ second rfl

theorem taken_request {front back : Log} {node : Nat} {event : Event} {info : ConnectionInfo}
    {eventId : UInt64} {name : Bytes} {near : End}
    (split : log = front ++ .event node (.event event) :: back) (handles : isHandling event = true)
    (serves : service info event = some (eventId, name)) (linked : world.peer near = some (node, info)) :
    ∃ request found thread ctrl, request.info = info ∧ request.eventId = eventId ∧
      ctrl.eventId = eventId ∧ event ∈ handling (world.config node) request found ∧
      .asked thread near.2 ctrl request.service request.method request.payload ∈
        eventsAt near.1 front := by
  obtain ⟨other, request, found, thread, ctrl, linked', id, own, asked⟩ :=
    handled_asked run split handles
  have same : request.info = info ∧ request.eventId = eventId := by
    rcases mem_handling own with ⟨-, rfl⟩ | ⟨svc, -, rfl | ⟨table, descriptor, -, -, -, rfl⟩⟩
    · simp only [service, Option.ite_none_right_eq_some, Option.some.injEq, Prod.mk.injEq] at serves
      exact ⟨serves.1, serves.2.1⟩
    · simp only [service, Option.ite_none_right_eq_some, Option.some.injEq, Prod.mk.injEq] at serves
      exact ⟨serves.1, serves.2.1⟩
    · cases serves
  rw [same.1] at linked'
  obtain rfl := (world.alone linked other).mp linked'
  exact ⟨request, found, thread, ctrl, same.1, same.2, id.trans same.2, own, asked⟩

theorem taken_once {front back : Log} {node : Nat} {event : Event} {info : ConnectionInfo}
    {eventId : UInt64} {name : Bytes} {near : End}
    (few : (issued (happened near.1 log)).length < 2 ^ 64)
    (split : log = front ++ .event node (.event event) :: back) (handles : isHandling event = true)
    (serves : service info event = some (eventId, name)) (linked : world.peer near = some (node, info))
    (act : Act Call Asked Outcome) (takes : TakesUp (near.1, eventId) act) :
    act ∉ acts world front := by
  intro listed
  obtain ⟨node', report, inside, shown⟩ := mem_acts.mp listed
  obtain ⟨event', info', eventId', name', rfl, handles', serves', known⟩ :=
    takesUp_report shown takes
  obtain ⟨near', linked', same⟩ := callAt_some known
  obtain ⟨owner, rfl⟩ := Prod.mk.inj same
  obtain ⟨front', back', split'⟩ := List.append_of_mem (mem_eventsAt.mp inside)
  have whole : log = front' ++ .event node' (.event event') ::
      (back' ++ .event node (.event event) :: back) := by
    rw [split, split', List.append_assoc]
    rfl
  obtain ⟨request, found, thread, ctrl, -, -, id, -, asked⟩ :=
    taken_request run split handles serves linked
  obtain ⟨request', found', thread', ctrl', -, -, id', -, asked'⟩ :=
    taken_request run whole handles' serves' linked'
  have frontIn : front ⊆ log := by
    rw [split]
    exact List.subset_append_left _ _
  have earlierIn : front' ⊆ log := by
    rw [whole]
    exact List.subset_append_left _ _
  -- both take up the one request that has this event id
  have ledger := ledger_of_run (process_run run near.1)
  have first := asked_issued (member_run run near.1) (eventsAt_mono frontIn asked)
  have second := asked_issued (member_run run near.1)
    (eventsAt_mono earlierIn (owner ▸ asked' : _ ∈ eventsAt near.1 front'))
  have one := ledger.eventId_injective (ledger.length ▸ few) first second (id.trans id'.symm)
  have home : near.2 = near'.2 := congrArg Issued.info one
  obtain rfl : near = near' := Prod.ext owner home
  rw [linked'] at linked
  obtain ⟨rfl, rfl⟩ := Prod.mk.inj (Option.some.inj linked)
  have distinct := served_once run linked' few
  rw [split, happened_at, served, List.filterMap_append, List.filterMap_cons, serves, List.map_append] at distinct
  have old : eventId ∈ ((happened node' front).filterMap (service info')).map Prod.fst :=
    List.mem_map_of_mem (List.mem_filterMap.mpr ⟨event', mem_eventsIn.mpr inside, serves'⟩)
  have next : eventId ∈ ((eventId, name) :: (happened node' back).filterMap (service info')).map
      Prod.fst := List.mem_cons_self
  exact (List.nodup_append.mp distinct).2.2 _ old _ next rfl

theorem answered_served {front back : Log} {node : Nat} {thread : Thread} {response : Response}
    {near : End} (split : log = front ++ .event node (.answered thread response) :: back)
    (linked : world.peer near = some (node, response.info)) :
    ∃ request, .serve (near.1, response.eventId) request ∈ acts world front := by
  obtain ⟨earlier, state, action, member, reports, stem, kept, fired, listed⟩ := report_step run split
  obtain ⟨events, stepped, handed, made, holds⟩ := step_cases fired
  have answers : responseOf action = some (thread, response) := by
    rw [made] at listed
    rcases List.mem_append.mp listed with spoken | emitted
    · rcases mem_said.mp spoken with asks | ⟨other, given, answers, same⟩
      · unfold requestBy at asks
        split at asks <;> cases asks
      · cases same
        exact answers
    · obtain ⟨event, -, same⟩ := List.mem_map.mp emitted
      cases same
  have held := holds thread response answers
  rw [repliers_of_run (member_run stem node)] at held
  obtain ⟨event, member, hands⟩ := List.mem_filterMap.mp held
  obtain ⟨header, request, found, arrived, carries, own, all⟩ :=
    handled_arrived (process_run stem node) member (replierIn_isHandling hands)
  have dispatched : ∃ name svc method payload,
      .dispatched response.info response.eventId name svc method payload ∈ happened node earlier := by
    rcases mem_handling own with ⟨-, rfl⟩ | ⟨svc, rfl, rfl | ⟨table, descriptor, -, -, -, rfl⟩⟩
    · cases hands
    · simp only [replierIn, Option.ite_none_right_eq_some, Option.some.injEq, Prod.mk.injEq] at hands
      obtain ⟨-, info, id⟩ := hands
      exact ⟨_, _, _, _, by rw [← info, ← id]; exact member⟩
    · simp only [replierIn, Option.some.injEq, Prod.mk.injEq] at hands
      obtain ⟨info, id⟩ := hands
      exact ⟨_, _, _, _, by rw [← info, ← id]; exact all _ List.mem_cons_self⟩
  obtain ⟨name, svc, method, payload, happens⟩ := dispatched
  exact ⟨_, acts_mono kept (dispatched_acts linked happens)⟩

theorem completed_caused {front back : Log} {node worker : Nat} {ctrl : Controller}
    {outcome : Outcome} (split : log = front ++ .event node (.event (.completed worker ctrl outcome)) :: back) :
    .answer (node, ctrl.eventId) outcome ∈ acts world front ∨
      .reject (node, ctrl.eventId) outcome ∈ acts world front ∨
      outcome = Outcome.timeout ∧ ∃ request, .ask (node, ctrl.eventId) request true ∈ acts world front := by
  obtain ⟨earlier, state, action, after, events, stem, kept, fired, member⟩ := event_step run split
  have earlierRun := process_run stem node
  obtain ⟨cmd, eventId, given, waiting, closes, held, shape⟩ :=
    completion_move (step_move fired) (.inl ⟨outcome, member⟩)
  rw [shape] at member
  simp only [List.mem_cons, List.not_mem_nil, or_false, reduceCtorEq, false_or,
    Event.completed.injEq, true_and] at member
  subst member
  obtain ⟨rfl, -⟩ := started_of_pending earlierRun held
  rcases closing_source earlierRun waiting closes with ⟨info, part, frame, own, -⟩ |
    ⟨info, sent, timer, own, -⟩
  · obtain ⟨header, payload, arrived, readable, rfl⟩ := frame
    obtain ⟨before, rest, whole⟩ := List.append_of_mem arrived
    obtain ⟨far, thread, asker, service, method, sent, linked, -, -, id, answered⟩ :=
      response_returned stem whole readable
    rw [← own, id]
    exact (answers_acts linked answered).imp (fun listed => acts_mono kept listed)
      fun listed => .inl (acts_mono kept listed)
  · obtain ⟨expired, -, ⟨sender, data, read⟩, finite⟩ := timer
    have meant : Meant (world.config node) (eventsAt node earlier) (.request info sent data) :=
      underway_meant (member_run stem node) rfl (.inr (.inr ⟨sender, read⟩))
    obtain ⟨thread, service, method, payload, asked, -⟩ := meant
    have listed : .ask (node, sent.eventId) (service, method, payload) (sent.timeoutMs ≠ -1) ∈
        acts world earlier := asked_acts asked
    rw [own, decide_eq_true finite] at listed
    exact .inr (.inr ⟨expired, _, acts_mono kept listed⟩)

theorem completed_first {front back : Log} {node worker : Nat} {ctrl : Controller}
    {outcome : Outcome} (few : (issued (happened node log)).length < 2 ^ 64)
    (split : log = front ++ .event node (.event (.completed worker ctrl outcome)) :: back)
    (other : Outcome) : .complete (node, ctrl.eventId) other ∉ acts world front := by
  intro listed
  obtain ⟨owner, report, inside, shown⟩ := mem_acts.mp listed
  obtain ⟨worker', ctrl', rfl, same⟩ := complete_report shown
  obtain ⟨rfl, id⟩ := Prod.mk.inj same
  have nodeRun := process_run run node
  have ledger := ledger_of_run nodeRun
  have parts : happened node log = happened node front ++
      .completed worker ctrl outcome :: happened node back := by
    rw [split, happened_at]
  have early : .completed worker' ctrl' other ∈ happened node front := mem_eventsIn.mpr inside
  have late : .completed worker ctrl outcome ∈ happened node log := by
    rw [parts]
    exact List.mem_append_right _ List.mem_cons_self
  have whole : .completed worker' ctrl' other ∈ happened node log := by
    rw [parts]
    exact List.mem_append_left _ early
  obtain ⟨request, made, rfl, -⟩ := issued_of_processed nodeRun (begun_of_completed nodeRun late)
  obtain ⟨request', made', rfl, -⟩ := issued_of_processed nodeRun (begun_of_completed nodeRun whole)
  obtain rfl := ledger.eventId_injective (ledger.length ▸ few) made made' id
  exact completed_once nodeRun few (in_turn run (ledger.length ▸ few)) made parts early
    List.mem_cons_self

/-! ## The refinement -/

theorem serve_permitted {front back : Log} {node : Nat} {info : ConnectionInfo} {eventId : UInt64}
    {name method payload : Bytes} {svc : Service} {near : End}
    (few : (issued (happened near.1 log)).length < 2 ^ 64)
    (split : log = front ++
      .event node (.event (.dispatched info eventId name svc method payload)) :: back)
    (linked : world.peer near = some (node, info)) :
    Permitted Outcome.timeout (acts world front) (.serve (near.1, eventId) (name, method, payload)) := by
  have serves : service info (.dispatched info eventId name svc method payload) =
      some (eventId, name) := if_pos rfl
  have fresh := taken_once run few split rfl serves linked
  obtain ⟨request, found, thread, ctrl, -, -, id, own, asked⟩ :=
    taken_request run split rfl serves linked
  rcases mem_handling own with ⟨-, other⟩ | ⟨svc', -, same | ⟨table, descriptor, -, -, -, other⟩⟩
  · cases other
  · simp only [Event.dispatched.injEq] at same
    obtain ⟨-, -, rfl, -, rfl, rfl⟩ := same
    refine ⟨⟨_, id ▸ asked_acts asked⟩, fun other => ?_, fun outcome => ?_⟩
    · exact fresh _ (.inl ⟨other, rfl⟩)
    · exact fresh _ (.inr ⟨outcome, rfl⟩)
  · cases other

theorem reject_permitted {front back : Log} {node : Nat} {info : ConnectionInfo} {eventId : UInt64}
    {name : Bytes} {near : End} (few : (issued (happened near.1 log)).length < 2 ^ 64)
    (split : log = front ++ .event node (.event (.noSuchService info eventId name)) :: back)
    (linked : world.peer near = some (node, info)) (outcome : Outcome) :
    Permitted Outcome.timeout (acts world front) (.reject (near.1, eventId) outcome) := by
  have serves : service info (.noSuchService info eventId name) = some (eventId, name) := if_pos rfl
  have fresh := taken_once run few split rfl serves linked
  obtain ⟨request, found, thread, ctrl, -, -, id, -, asked⟩ :=
    taken_request run split rfl serves linked
  refine ⟨⟨_, _, id ▸ asked_acts asked⟩, fun other => ?_, fun given => ?_⟩
  · exact fresh _ (.inl ⟨other, rfl⟩)
  · exact fresh _ (.inr ⟨given, rfl⟩)

theorem act_permitted (few : ∀ node, (issued (happened node log)).length < 2 ^ 64)
    {front back : Log} {node : Nat} {report : Report} {act : Act Call Asked Outcome}
    {pre post : List (Act Call Asked Outcome)} (split : log = front ++ .event node report :: back)
    (shown : reportActs world node report = pre ++ act :: post) :
    Permitted Outcome.timeout (acts world front ++ pre) act := by
  cases report with
  | asked thread info ctrl service method payload =>
    obtain ⟨rfl, rfl⟩ := singleton_split shown
    rw [List.append_nil]
    exact asked_fresh run (few node) split
  | answered thread response =>
    have member : act ∈ reportActs world node (.answered thread response) := by
      rw [shown]
      exact List.mem_append_right _ List.mem_cons_self
    obtain ⟨call, known, rfl⟩ := List.mem_map.mp member
    obtain ⟨near, linked, rfl⟩ := callAt_some (Option.mem_toList.mp known)
    obtain ⟨request, listed⟩ := answered_served run split linked
    exact .inl ⟨request, List.mem_append_left _ listed⟩
  | event event =>
    cases event with
    | completed worker ctrl outcome =>
      obtain ⟨rfl, rfl⟩ := singleton_split shown
      rw [List.append_nil]
      exact ⟨completed_first run (few node) split, completed_caused run split⟩
    | dispatched info eventId name svc method payload =>
      cases known : callAt world (node, info) eventId with
      | none =>
        rw [reportActs, eventActs, known] at shown
        cases pre <;> cases shown
      | some call =>
        rw [reportActs, eventActs, known, Option.toList_some, List.flatMap_singleton] at shown
        obtain ⟨near, linked, rfl⟩ := callAt_some known
        cases pre with
        | nil =>
          obtain ⟨rfl, -⟩ := List.cons.inj shown
          rw [List.append_nil]
          exact serve_permitted run (few near.1) split linked
        | cons first pre =>
          -- the library answers what it has just served
          obtain ⟨rfl, later⟩ := List.cons.inj shown
          have member : act ∈ ((refusal (world.config node)
              (.dispatched info eventId name svc method payload)).map fun response =>
                Act.answer (near.1, eventId) response.outcome).toList := by
            rw [later]
            exact List.mem_append_right _ List.mem_cons_self
          obtain ⟨response, -, rfl⟩ := Option.map_eq_some_iff.mp (Option.mem_toList.mp member)
          exact .inl ⟨_, List.mem_append_right _ List.mem_cons_self⟩
    | noSuchService info eventId name =>
      cases known : callAt world (node, info) eventId with
      | none =>
        rw [reportActs, eventActs, known] at shown
        cases pre <;> cases shown
      | some call =>
        rw [reportActs, eventActs, known, Option.toList_some, List.flatMap_singleton] at shown
        obtain ⟨near, linked, rfl⟩ := callAt_some known
        obtain ⟨rfl, rfl⟩ := singleton_split shown
        rw [List.append_nil]
        exact reject_permitted run (few near.1) split linked _
    | _ => cases pre <;> cases shown

end Run

theorem issued_le_log (node : Nat) (log : Log) : (issued (happened node log)).length ≤ log.length :=
  calc (issued (happened node log)).length
    _ ≤ (happened node log).length := List.length_filterMap_le ..
    _ ≤ (eventsAt node log).length := List.length_filterMap_le ..
    _ ≤ log.length := List.length_filterMap_le ..

end Rpcz.CallProtocol
