import Rpcz.DeadlineArithmetic
import Rpcz.BrokerSockets
import Rpcz.RequestLog
import Rpcz.HeaderCodec

/-!
The timeouts of a process. `send_request` and `process_closure_run_map` read the clock in
steps of the broker; with the timers numbered in the order of their requests, the broker's
passes are passes of the reactor whose timers were studied alone.
-/

namespace Rpcz.RequestTimers
open Automaton Message EventLog ReactorLoop RequestHandlers WorkerThread BrokerThread ProcessModel
  Moves History EventIds RequestLog
open TimerPasses (Sorted entries FiredInTurn)
open DeadlineArithmetic (deadline exactDeadline due_iff sendRequest_deadline Requests)

inductive Reading where
  /-- `send_request` for a request with this timeout. -/
  | asked (timer : TimeoutClosure) (began : UInt64) (timeoutMs : Int64)
  /-- `process_closure_run_map` and the timers it ran. -/
  | passed (now : UInt64) (fired : List TimeoutClosure)
deriving DecidableEq

def firedIn (events : List Event) : List TimeoutClosure :=
  events.filterMap fun
    | .timerFired eventId workerIndex => some ⟨eventId, workerIndex⟩
    | _ => none

def readingOf (cfg : Config) : ProcessModel.Action × List Event → List Reading
  | (.dispatch (.frontend _ oracle), .handled _ (.request info ctrl _) :: _) =>
    [.asked ⟨ctrl.eventId, cfg.getWorkerIndex info⟩ oracle.now ctrl.timeoutMs]
  | (.timers now, events) => [.passed now (firedIn events)]
  | _ => []

def readings (cfg : Config) (history : List (ProcessModel.Action × List Event)) : List Reading :=
  history.flatMap (readingOf cfg)

def askedTimers (readings : List Reading) : List TimeoutClosure :=
  readings.filterMap fun
    | .asked timer _ _ => some timer
    | .passed .. => none

def Reading.limited : Reading → Bool
  | .asked _ _ timeoutMs => timeoutMs ≠ -1
  | .passed .. => true

/-- Without the requests that never time out. -/
def limited (readings : List Reading) : List Reading := readings.filter Reading.limited

structure FiredRight (before : List Reading) (now : UInt64) (fired : List TimeoutClosure) : Prop where
  /-- Only timers of requests with a timeout fire, each once. -/
  asked : ∀ timer ∈ fired, ∃ began timeoutMs, .asked timer began timeoutMs ∈ before ∧ timeoutMs ≠ -1
  once : fired.Nodup
  unlimited : ∀ timer began, .asked timer began (-1) ∈ before → timer ∉ fired
  /-- A timer fires in the first pass that reads its deadline or later. -/
  first : ∀ earlier timer began timeoutMs mid,
    before = earlier ++ .asked timer began timeoutMs :: mid → timeoutMs ≠ -1 →
      (timer ∈ fired ↔ deadline began timeoutMs ≤ now ∧
        ∀ reading others, .passed reading others ∈ mid → reading < deadline began timeoutMs)
  /-- That is the sum of clock and timeout, unless this lies before the epoch. -/
  exact : ∀ earlier timer began timeoutMs mid,
    before = earlier ++ .asked timer began timeoutMs :: mid → timeoutMs ≠ -1 →
      began.toNat < 2 ^ 63 → 0 ≤ exactDeadline began timeoutMs →
        (timer ∈ fired ↔ exactDeadline began timeoutMs ≤ now.toNat ∧
          ∀ reading others, .passed reading others ∈ mid →
            (reading.toNat : Int) < exactDeadline began timeoutMs)
  /-- Those of one pass fire in the order of their deadlines. -/
  order : fired.Pairwise fun one two => ∃ began timeoutMs later laterMs,
    .asked one began timeoutMs ∈ before ∧ .asked two later laterMs ∈ before ∧
      deadline began timeoutMs ≤ deadline later laterMs

/-! ## Names for the numbers -/

section Names
variable {Timer : Type} {name : Nat → Timer}

def renamed (name : Nat → Timer) (closures : List (UInt64 × List Nat)) : List (UInt64 × List Timer) :=
  closures.map fun entry => (entry.1, entry.2.map name)

theorem renamed_insert (timestamp : UInt64) (closure : Nat) (closures : List (UInt64 × List Nat)) :
    renamed name (insertClosure timestamp closure closures) =
      insertClosure timestamp (name closure) (renamed name closures) := by
  induction closures with
  | nil => rfl
  | cons entry rest ih =>
    simp only [renamed] at ih
    simp only [renamed, insertClosure, List.map_cons]
    split
    · rfl
    · split
      · simp
      · rw [List.map_cons, ih]

theorem renamed_notDue (now : UInt64) (closures : List (UInt64 × List Nat)) :
    renamed name (notDue now closures) = notDue now (renamed name closures) := by
  induction closures with
  | nil => rfl
  | cons entry rest ih =>
    simp only [renamed, notDue] at ih
    simp only [renamed, notDue, List.map_cons, List.dropWhile_cons]
    split
    · exact ih
    · rfl

theorem renamed_due (now : UInt64) (closures : List (UInt64 × List Nat)) :
    (due now closures).map name = due now (renamed name closures) := by
  induction closures with
  | nil => rfl
  | cons entry rest ih =>
    simp only [renamed, due] at ih
    simp only [renamed, due, List.map_cons, List.takeWhile_cons]
    split
    · rw [List.flatMap_cons, List.flatMap_cons, List.map_append, ih]
    · rfl

end Names

/-! ## One step of the process -/

section Readings
variable {cfg : Config}

theorem firedIn_append (first second : List Event) :
    firedIn (first ++ second) = firedIn first ++ firedIn second :=
  List.filterMap_append ..

theorem firedIn_timers (timers : List TimeoutClosure) :
    firedIn (timers.map fun closure => .timerFired closure.eventId closure.workerIndex) = timers := by
  induction timers with
  | nil => rfl
  | cons timer rest ih => exact congrArg (timer :: ·) ih

theorem firedIn_other {events : List Event} (elsewhere : ∀ event ∈ events, origin event ≠ .broker) :
    firedIn events = [] := by
  refine filterMap_other .broker (fun event other => ?_) elsewhere
  cases event <;> simp_all [origin]

inductive Treats (cfg : Config) (before : List (UInt64 × List TimeoutClosure)) :
    List (UInt64 × List TimeoutClosure) → List Reading → Prop where
  | none : Treats cfg before before []
  | unlimited (timer : TimeoutClosure) (began : UInt64) :
      Treats cfg before before [.asked timer began (-1)]
  | asked (timer : TimeoutClosure) (began : UInt64) (timeoutMs : Int64) (finite : timeoutMs ≠ -1) :
      Treats cfg before (insertClosure (deadline began timeoutMs) timer before)
        [.asked timer began timeoutMs]
  | passed (now : UInt64) : Treats cfg before (notDue now before) [.passed now (due now before)]

variable {process after : Process} {emitted : List Event} {action : ProcessModel.Action}

theorem move_treats (move : Move cfg process action after emitted) :
    Treats cfg process.broker.reactor.closureRunMap after.broker.reactor.closureRunMap
      (readingOf cfg (action, emitted)) := by
  cases move with
  | thread thread action after emitted running move =>
    rw [(threadMove_frame move).1]
    exact .none
  | loopTop phase performed =>
    have plain := (loopTop_plain cfg process.broker performed).closures
    show Treats cfg _ process.broker.loopTop.1.reactor.closureRunMap []
    rw [plain]
    exact .none
  | timers now phase performed =>
    have fired : firedIn ((process.broker.runTimers cfg now).2 ++
        queuedEvents (process.broker.runTimers cfg now).1.outbox) =
        due now process.broker.reactor.closureRunMap := by
      have silent : firedIn (queuedEvents (process.broker.runTimers cfg now).1.outbox) = [] :=
        firedIn_other fun event member => by simp [queuedEvents_origin event member]
      rw [firedIn_append, silent, List.append_nil]
      exact firedIn_timers _
    simp only [readingOf, fired]
    exact .passed now
  | poll outcome phase performed =>
    have plain := (afterPoll_plain cfg process.broker performed outcome).closures
    show Treats cfg _ (process.broker.afterPoll outcome).1.reactor.closureRunMap []
    rw [plain]
    exact .none
  | finished input | quiet input | outOfRange input => cases input <;> exact .none
  | command i sender oracle cmd rest phase performed slot unread result same =>
    subst same
    cases asks : isRequest cmd with
    | true =>
      cases cmd with
      | request info ctrl data =>
        simp only [readingOf, Broker.handleCommand, sendRequest_deadline]
        split
        · next endless =>
          rw [endless]
          exact .unlimited _ _
        · next finite => exact .asked _ _ _ finite
      | _ => cases asks
    | false =>
      have plain := (handleCommand_plain cfg { process.broker with phase := .dispatch (i + 1) }
        performed oracle sender asks).closures
      have unread : ∀ later, readingOf cfg (.dispatch (.frontend sender oracle),
          .handled sender cmd :: later) = [] := by
        intro later
        cases cmd with
        | request => cases asks
        | _ => rfl
      rw [unread, plain]
      exact .none
  | message i callback frames phase performed slot network nonempty result same =>
    subst same
    have plain := (receive_plain cfg { process.broker with phase := .dispatch (i + 1) }
      performed callback frames).closures
    simp only [readingOf, plain]
    exact .none
  | flush output rest live unperformed =>
    have kept : ((process.setOutbox rest).perform output).1.broker.reactor = process.broker.reactor := by
      rcases BrokerSockets.perform_broker (process.setOutbox rest) output with same | same <;>
        rw [same] <;> rfl
    simp only [readingOf, kept]
    exact .none
  | worker | release | joinBroker | joinWorkers => exact .none

theorem Treats.sorted {before later : List (UInt64 × List TimeoutClosure)} {seen : List Reading}
    (treats : Treats cfg before later seen) (sorted : Sorted before) : Sorted later := by
  cases treats with
  | none => exact sorted
  | unlimited => exact sorted
  | asked timer began timeoutMs finite => exact TimerPasses.sorted_insert sorted
  | passed now => exact (TimerPasses.entries_pass sorted now).2.2

theorem sorted_of_run {allowed : Process → ProcessModel.Action → Prop} {events : List Event}
    (run : Run (ProcessModel.machine cfg) allowed events process) :
    Sorted process.broker.reactor.closureRunMap := by
  apply Steps.invariant (fun _ process => Sorted process.broker.reactor.closureRunMap) _ _ run
  · constructor
    case ascending => exact List.Pairwise.nil
    case filled =>
      intro entry inside
      cases inside
  · intro events process action emitted after _ sorted _ fired
    exact (move_treats (step_move fired)).sorted sorted

end Readings

/-! ## The numbered timers -/

/-- An event of the numbered timers, with the timers under their names. -/
def told (name : Nat → TimeoutClosure) : DeadlineArithmetic.Event → Reading
  | .requested closure began timeoutMs => .asked (name closure) began timeoutMs
  | .passed now ran _ => .passed now (ran.map name)

def Names (name : Nat → TimeoutClosure) (timers : List TimeoutClosure) : Prop :=
  ∀ k timer, timers[k]? = some timer → name k = timer

/-- The numbered timers are those of the requests with a timeout, under any naming. -/
structure Numbered (readings : List Reading) (stored : List (UInt64 × List TimeoutClosure))
    (signs : List DeadlineArithmetic.Event) (requests : Requests) : Prop where
  registered : requests.timers.registered = (askedTimers (limited readings)).length
  stored : ∀ name, Names name (askedTimers (limited readings)) →
    renamed name requests.timers.reactor.closureRunMap = stored
  told : ∀ name, Names name (askedTimers (limited readings)) →
    signs.map (told name) = limited readings

theorem limited_append (first second : List Reading) :
    limited (first ++ second) = limited first ++ limited second :=
  List.filter_append ..

theorem askedTimers_append (first second : List Reading) :
    askedTimers (first ++ second) = askedTimers first ++ askedTimers second :=
  List.filterMap_append ..

theorem Names.of_append {name : Nat → TimeoutClosure} {timers more : List TimeoutClosure}
    (names : Names name (timers ++ more)) : Names name timers := by
  intro k timer found
  apply names k timer
  rw [List.getElem?_append_left (List.getElem?_eq_some_iff.mp found).1]
  exact found

theorem Names.last {name : Nat → TimeoutClosure} {timers : List TimeoutClosure}
    {timer : TimeoutClosure} (names : Names name (timers ++ [timer])) :
    name timers.length = timer :=
  names _ _ List.getElem?_concat_length

section Simulation
variable {cfg : Config} {seen : List Reading} {stored left : List (UInt64 × List TimeoutClosure)}
  {signs : List DeadlineArithmetic.Event} {requests : Requests} {more : List Reading}

theorem Numbered.step (numbered : Numbered seen stored signs requests)
    (treats : Treats cfg stored left more) :
    ∃ later next, Steps DeadlineArithmetic.machine anyStep requests later next ∧
      Numbered (seen ++ more) left (signs ++ later) next := by
  cases treats with
  | none =>
    refine ⟨[], requests, .refl, ?_⟩
    rw [List.append_nil, List.append_nil]
    exact numbered
  | unlimited timer began =>
    refine ⟨[], requests, .refl, ?_⟩
    have dropped : limited (seen ++ [.asked timer began (-1)]) = limited seen := by
      rw [limited_append]
      exact List.append_nil _
    rw [List.append_nil]
    constructor
    · rw [dropped, numbered.registered]
    · rw [dropped]
      exact numbered.stored
    · rw [dropped]
      exact numbered.told
  | asked timer began timeoutMs finite =>
    have fired : DeadlineArithmetic.machine.step requests (.request began timeoutMs) =
        some (⟨{ requests.timers with
          reactor := requests.timers.reactor.runClosureAt (deadline began timeoutMs)
            requests.timers.registered
          registered := requests.timers.registered + 1 }, began⟩,
        [.requested requests.timers.registered began timeoutMs]) := by
      simp [DeadlineArithmetic.machine, Requests.step, finite]
    have kept : limited (seen ++ [.asked timer began timeoutMs]) =
        limited seen ++ [.asked timer began timeoutMs] := by
      rw [limited_append]
      simp [limited, Reading.limited, finite]
    have counted : askedTimers (limited (seen ++ [.asked timer began timeoutMs])) =
        askedTimers (limited seen) ++ [timer] := by
      rw [kept, askedTimers_append]
      rfl
    refine ⟨_, _, .single trivial fired, ?_⟩
    constructor
    · rw [counted, List.length_append, ← numbered.registered]
      rfl
    · intro name names
      rw [counted] at names
      show renamed name (insertClosure _ _ _) = _
      rw [renamed_insert, numbered.stored name names.of_append, numbered.registered, names.last]
    · intro name names
      rw [counted] at names
      rw [kept, List.map_append, numbered.told name names.of_append, numbered.registered]
      show _ ++ [Reading.asked (name _) _ _] = _
      rw [names.last]
  | passed now =>
    have fired : DeadlineArithmetic.machine.step requests (.process now) =
        some (⟨{ requests.timers with
          reactor := (requests.timers.reactor.processClosureRunMap now).1 }, now⟩,
        [.passed now (due now requests.timers.reactor.closureRunMap)
          (pollTimeout now requests.timers.reactor.closureRunMap)]) := rfl
    have kept : limited (seen ++ [.passed now (due now stored)]) =
        limited seen ++ [.passed now (due now stored)] := by
      rw [limited_append]
      rfl
    have counted : askedTimers (limited (seen ++ [.passed now (due now stored)])) =
        askedTimers (limited seen) := by
      rw [kept, askedTimers_append]
      exact List.append_nil _
    refine ⟨_, _, .single trivial fired, ?_⟩
    constructor
    · rw [counted, ← numbered.registered]
    · intro name names
      rw [counted] at names
      show renamed name (notDue _ _) = _
      rw [renamed_notDue, numbered.stored name names]
    · intro name names
      rw [counted] at names
      rw [kept, List.map_append, numbered.told name names]
      show _ ++ [Reading.passed now ((due now _).map name)] = _
      rw [renamed_due, numbered.stored name names]

variable {history : List (ProcessModel.Action × List Event)} {process : Process}
  {allowed : Process → ProcessModel.Action → Prop}

theorem numbered_of_run (run : Run (ProcessModel.machine cfg).recorded allowed history process) :
    ∃ signs requests, Run DeadlineArithmetic.machine anyStep signs requests ∧
      Numbered (readings cfg history) process.broker.reactor.closureRunMap signs requests := by
  apply run.simulated fun history process signs requests =>
    Numbered (readings cfg history) process.broker.reactor.closureRunMap signs requests
  · exact ⟨[], _, .refl, rfl, fun _ _ => rfl, fun _ _ => rfl⟩
  · intro history process signs requests action entries after _ _ numbered _ fired
    obtain ⟨emitted, stepped, rfl⟩ := recorded_step fired
    have treats := move_treats (step_move stepped)
    have more : readings cfg (history ++ [(action, emitted)]) =
        readings cfg history ++ readingOf cfg (action, emitted) := by
      rw [readings, List.flatMap_append, List.flatMap_singleton]
      rfl
    rw [more]
    exact numbered.step treats

end Simulation

/-! ## Every request has its own timer -/

section Asked
variable {cfg : Config} {process after : Process} {emitted : List Event}
  {action : ProcessModel.Action} {history : List (ProcessModel.Action × List Event)}
  {allowed : Process → ProcessModel.Action → Prop}

def timerOf (cfg : Config) (request : Issued) : TimeoutClosure :=
  ⟨request.ctrl.eventId, cfg.getWorkerIndex request.info⟩

theorem move_asks (move : Move cfg process action after emitted) :
    askedTimers (readingOf cfg (action, emitted)) = (handledRequests emitted).map (timerOf cfg) := by
  have quiet : ∀ {result : Broker × List Event}, (∀ event ∈ result.2, origin event = .broker) →
      handledRequests (result.2 ++ queuedEvents result.1.outbox) = [] := by
    intro result silent
    apply handledRequests_other
    intro event member
    rcases List.mem_append.mp member with left | right
    · simp [silent event left]
    · simp [queuedEvents_origin event right]
  cases move with
  | thread thread action after emitted running move =>
    rw [handledRequests_other fun event member => by
      simp [(threadMove_frame move).2.2.2.2 event member]]
    rfl
  | loopTop => rw [quiet (loopTop_origin _)]; rfl
  | timers now => rw [quiet (runTimers_origin cfg _ now)]; rfl
  | poll outcome => rw [quiet (afterPoll_origin _ outcome)]; rfl
  | finished input | quiet input | outOfRange input => cases input <;> rfl
  | command i sender oracle cmd rest phase performed slot unread result same =>
    subst same
    have later := quiet
      (handleCommand_origin cfg { process.broker with phase := .dispatch (i + 1) } oracle sender cmd)
    rw [← List.singleton_append, handledRequests_append, later, List.append_nil]
    cases cmd <;> rfl
  | message i callback frames phase performed slot network nonempty result same =>
    subst same
    rw [quiet (receive_origin cfg _ callback frames)]
    rfl
  | flush output rest live unperformed =>
    rw [handledRequests_other fun event member => by
      simp [perform_origin _ _ event member]]
    rfl
  | worker index cmd rest legal running idle unread result same =>
    rw [handledRequests_other fun event member => ?_]
    · rfl
    · rcases List.mem_cons.mp member with rfl | later
      · simp [origin]
      · rw [← same] at later
        simp [exec_origin _ _ _ _ _ _ _ later]
  | release | joinWorkers => rfl
  | joinBroker =>
    rw [handledRequests_other fun event member => ?_]
    · rfl
    · obtain ⟨index, -, rfl⟩ := List.mem_map.mp member
      simp [origin]

theorem asked_handled (run : Run (ProcessModel.machine cfg).recorded allowed history process) :
    askedTimers (readings cfg history) =
      (handledRequests (history.flatMap Prod.snd)).map (timerOf cfg) := by
  refine Steps.invariant (fun history _ => askedTimers (readings cfg history) =
    (handledRequests (history.flatMap Prod.snd)).map (timerOf cfg)) rfl ?_ run
  intro history process action entries after _ same _ fired
  obtain ⟨emitted, stepped, rfl⟩ := recorded_step fired
  have asks := move_asks (step_move stepped)
  rw [readings, List.flatMap_append, List.flatMap_singleton, askedTimers_append, asks,
    List.flatMap_append, List.flatMap_singleton, handledRequests_append, List.map_append, ← same]
  rfl

theorem asked_once (run : Run (ProcessModel.machine cfg).recorded allowed history process)
    (few : process.requests < 2 ^ 64) : (askedTimers (readings cfg history)).Nodup := by
  have ledger := ledger_of_run run.of_recorded
  rw [asked_handled run]
  apply List.Nodup.map_on _ (List.Nodup.of_map _ ledger.once)
  intro one first two second same
  have ids : one.ctrl.eventId = two.ctrl.eventId := congrArg TimeoutClosure.eventId same
  exact ledger.eventId_injective few (ledger.handled_issued first) (ledger.handled_issued second) ids

end Asked

/-! ## What is right about the passes -/

theorem mem_limited {seen : List Reading} {reading : Reading} :
    reading ∈ limited seen ↔ reading ∈ seen ∧ reading.limited = true :=
  List.mem_filter

theorem mem_askedTimers {seen : List Reading} {timer : TimeoutClosure} {began : UInt64}
    {timeoutMs : Int64} (member : .asked timer began timeoutMs ∈ seen) : timer ∈ askedTimers seen :=
  List.mem_filterMap.mpr ⟨_, member, rfl⟩

theorem asked_unique {seen : List Reading} (once : (askedTimers seen).Nodup) {timer : TimeoutClosure}
    {began later : UInt64} {timeoutMs laterMs : Int64} (one : .asked timer began timeoutMs ∈ seen)
    (two : .asked timer later laterMs ∈ seen) : timeoutMs = laterMs := by
  induction seen with
  | nil => cases one
  | cons reading rest ih =>
    cases reading with
    | passed now fired =>
      exact ih once ((List.mem_cons.mp one).resolve_left (by simp))
        ((List.mem_cons.mp two).resolve_left (by simp))
    | asked other start otherMs =>
      have shape : askedTimers (.asked other start otherMs :: rest) = other :: askedTimers rest := rfl
      rw [shape, List.nodup_cons] at once
      rcases List.mem_cons.mp one with first | early <;> rcases List.mem_cons.mp two with second | late
      · cases first
        cases second
        rfl
      · cases first
        exact absurd (mem_askedTimers late) once.1
      · cases second
        exact absurd (mem_askedTimers early) once.1
      · exact ih once.2 early late

section Transfer
variable {signs : List DeadlineArithmetic.Event} {requests : Requests} {name : Nat → TimeoutClosure}
  {before seen : List Reading} {early : List DeadlineArithmetic.Event}

theorem told_asked (same : early.map (told name) = limited before) {closure : Nat} {stamp : UInt64}
    (member : .registered closure stamp ∈ early.map DeadlineArithmetic.Event.timer) :
    ∃ began timeoutMs, .asked (name closure) began timeoutMs ∈ before ∧ timeoutMs ≠ -1 ∧
      stamp = deadline began timeoutMs := by
  obtain ⟨event, inside, shown⟩ := List.mem_map.mp member
  cases event with
  | passed => cases shown
  | requested number began timeoutMs =>
    cases shown
    have seen : .asked (name closure) began timeoutMs ∈ limited before := by
      rw [← same]
      exact List.mem_map_of_mem (f := told name) inside
    obtain ⟨listed, finite⟩ := mem_limited.mp seen
    exact ⟨began, timeoutMs, listed, by simpa [Reading.limited] using finite, rfl⟩

theorem told_passed (same : early.map (told name) = limited before) {reading : UInt64} :
    (∃ closures value, .passed reading closures value ∈ early.map DeadlineArithmetic.Event.timer) ↔
      ∃ others, .passed reading others ∈ before := by
  constructor
  · intro ⟨closures, value, member⟩
    obtain ⟨event, inside, shown⟩ := List.mem_map.mp member
    cases event with
    | requested => cases shown
    | passed now ran timeout =>
      cases shown
      have seen : .passed reading (closures.map name) ∈ limited before := by
        rw [← same]
        exact List.mem_map_of_mem (f := told name) inside
      exact ⟨_, (mem_limited.mp seen).1⟩
  · intro ⟨others, member⟩
    have seen : .passed reading others ∈ limited before := mem_limited.mpr ⟨member, rfl⟩
    rw [← same] at seen
    obtain ⟨event, inside, shown⟩ := List.mem_map.mp seen
    cases event with
    | requested => cases shown
    | passed now ran timeout =>
      cases shown
      exact ⟨ran, timeout, List.mem_map_of_mem (f := DeadlineArithmetic.Event.timer) inside⟩

def nameIn (timers : List TimeoutClosure) (number : Nat) : TimeoutClosure :=
  timers.getD number ⟨0, 0⟩

theorem names_nameIn (timers : List TimeoutClosure) : Names (nameIn timers) timers := by
  intro k timer found
  simp [nameIn, List.getD, found]

theorem nameIn_injective {timers : List TimeoutClosure} (once : timers.Nodup) {one two : Nat}
    (first : one < timers.length) (second : two < timers.length)
    (same : nameIn timers one = nameIn timers two) : one = two := by
  rw [names_nameIn timers one _ (List.getElem?_eq_getElem first),
    names_nameIn timers two _ (List.getElem?_eq_getElem second)] at same
  exact (List.Nodup.getElem_inj_iff once).mp same

theorem number_lt (run : Run DeadlineArithmetic.machine anyStep signs requests) {closure : Nat}
    {stamp : UInt64} (member : .registered closure stamp ∈ signs.map DeadlineArithmetic.Event.timer) :
    closure < requests.timers.registered := by
  have timed := TimerPasses.timed_of_run (DeadlineArithmetic.timers_of_run run).1
  have listed := TimerPasses.mem_registrations member
  rw [timed.numbered] at listed
  exact List.mem_range.mp listed

end Transfer

theorem fired_right {before rest : List Reading} {now : UInt64} {fired : List TimeoutClosure}
    {stored : List (UInt64 × List TimeoutClosure)} {signs : List DeadlineArithmetic.Event}
    {requests : Requests} (run : Run DeadlineArithmetic.machine anyStep signs requests)
    (numbered : Numbered (before ++ .passed now fired :: rest) stored signs requests)
    (once : (askedTimers (before ++ .passed now fired :: rest)).Nodup) :
    FiredRight before now fired := by
  have onceEarly : (askedTimers before).Nodup := by
    rw [askedTimers_append] at once
    exact once.of_append_left
  have distinct : (askedTimers (limited (before ++ .passed now fired :: rest))).Nodup :=
    once.sublist (List.filter_sublist.filterMap _)
  have count := numbered.registered
  have same := numbered.told _ (names_nameIn _)
  generalize askedTimers (limited (before ++ .passed now fired :: rest)) = timers at distinct count same
  rw [limited_append] at same
  obtain ⟨early, tail, rfl, left, right⟩ := List.map_eq_append_iff.mp same
  obtain ⟨event, late, rfl, shown, -⟩ := List.map_eq_cons_iff.mp right
  cases event with
  | requested => cases shown
  | passed reading ran timeout =>
    cases shown
    obtain ⟨-, -, -, inTurn, -⟩ := DeadlineArithmetic.passed_of_run run
    have below : ∀ {closure stamp},
        .registered closure stamp ∈ early.map DeadlineArithmetic.Event.timer →
          closure < timers.length := by
      intro closure stamp member
      rw [← count]
      apply number_lt run
      rw [List.map_append]
      exact List.mem_append_left _ member
    have belowRan : ∀ closure ∈ ran, closure < timers.length := by
      intro closure member
      obtain ⟨stamp, registered⟩ := inTurn.registered closure member
      exact below registered
    have asked : ∀ timer ∈ ran.map (nameIn timers), ∃ began timeoutMs,
        .asked timer began timeoutMs ∈ before ∧ timeoutMs ≠ -1 := by
      intro timer member
      obtain ⟨closure, inside, rfl⟩ := List.mem_map.mp member
      obtain ⟨stamp, registered⟩ := inTurn.registered closure inside
      obtain ⟨began, timeoutMs, listed, finite, -⟩ := told_asked left registered
      exact ⟨began, timeoutMs, listed, finite⟩
    have first : ∀ earlier timer began timeoutMs mid,
        before = earlier ++ .asked timer began timeoutMs :: mid → timeoutMs ≠ -1 →
          (timer ∈ ran.map (nameIn timers) ↔ deadline began timeoutMs ≤ now ∧
            ∀ clock others, .passed clock others ∈ mid → clock < deadline began timeoutMs) := by
      intro earlier timer began timeoutMs mid shape finite
      have kept : limited (.asked timer began timeoutMs :: mid) =
          .asked timer began timeoutMs :: limited mid := by
        simp [limited, Reading.limited, finite]
      have parts := left
      rw [shape, limited_append, kept] at parts
      obtain ⟨front, back, split, -, behind⟩ := List.map_eq_append_iff.mp parts
      obtain ⟨event, mids, rfl, shown, between⟩ := List.map_eq_cons_iff.mp behind
      cases event with
      | passed => cases shown
      | requested number start value =>
        cases shown
        have history : early.map DeadlineArithmetic.Event.timer =
            front.map DeadlineArithmetic.Event.timer ++
              .registered number (deadline began timeoutMs) ::
                mids.map DeadlineArithmetic.Event.timer := by
          rw [split, List.map_append]
          rfl
        have listed : .registered number (deadline began timeoutMs) ∈
            early.map DeadlineArithmetic.Event.timer := by
          rw [history]
          exact List.mem_append_right _ List.mem_cons_self
        have bound : number < timers.length := below listed
        have fires : nameIn timers number ∈ ran.map (nameIn timers) ↔ number ∈ ran := by
          constructor
          · intro member
            obtain ⟨other, inside, alike⟩ := List.mem_map.mp member
            have equal := nameIn_injective distinct (belowRan other inside) bound alike
            rw [← equal]
            exact inside
          · exact List.mem_map_of_mem
        rw [fires, inTurn.first _ _ _ _ history]
        apply and_congr_right
        intro _
        constructor
        · intro late clock others member
          obtain ⟨closures, value', shown⟩ := (told_passed between).mpr ⟨others, member⟩
          exact late clock closures value' shown
        · intro late clock closures value' member
          obtain ⟨others, shown⟩ := (told_passed between).mp ⟨closures, value', member⟩
          exact late clock others shown
    exact
      { asked := asked
        once := by
          apply List.Nodup.map_on _ inTurn.once
          intro one here two there same
          exact nameIn_injective distinct (belowRan one here) (belowRan two there) same
        unlimited := by
          intro timer began listed member
          obtain ⟨later, timeoutMs, other, finite⟩ := asked timer member
          exact finite (asked_unique onceEarly other listed)
        first := first
        exact := by
          intro earlier timer began timeoutMs mid shape finite inRange after
          have due := (due_iff inRange).mpr after
          rw [first earlier timer began timeoutMs mid shape finite, due]
          apply and_congr_right
          intro _
          apply forall_congr'
          intro clock
          apply forall_congr'
          intro others
          apply imp_congr_right
          intro _
          rw [← UInt64.not_le, due clock, Int.not_le]
        order := by
          rw [List.pairwise_map]
          apply inTurn.order.imp
          intro one two ⟨stamp, other, here, there, sooner⟩
          obtain ⟨began, timeoutMs, listed, -, rfl⟩ := told_asked left here
          obtain ⟨later, laterMs, asks, -, rfl⟩ := told_asked left there
          refine ⟨began, timeoutMs, later, laterMs, listed, asks, ?_⟩
          rcases sooner with below | ⟨equal, -⟩
          · exact UInt64.le_of_lt below
          · rw [equal]
            exact UInt64.le_refl _ }

/-- In every run of a process whose requests have different event ids the timeouts fire
when they should: each once, in the first pass of the broker that reads the deadline. -/
theorem timeouts_fire (cfg : Config) (history : List (ProcessModel.Action × List Event))
    (process : Process) (run : Run (ProcessModel.machine cfg).recorded anyStep history process)
    (few : process.requests < 2 ^ 64) (before rest : List Reading) (now : UInt64)
    (fired : List TimeoutClosure) (shape : readings cfg history = before ++ .passed now fired :: rest) :
    FiredRight before now fired := by
  obtain ⟨signs, requests, steps, numbered⟩ := numbered_of_run run
  have once := asked_once run few
  rw [shape] at numbered once
  exact fired_right steps numbered once

/-- Thread 0 connects, asks with a timeout of 50 ms at time 100, and the broker reads
the clock at 149 and at 150. -/
def waitsAndTimesOut : List ProcessModel.Action :=
  [.thread (.app 0) (.connect [1]), .loopTop, .timers 0, .poll (.ready [true]),
    .dispatch (.frontend (.app 0) ⟨true, 0, 0⟩), .flush, .dispatch .nothing,
    .thread (.app 0) .receive, .thread (.app 0) (.request (.dealer 1) [] [] [] none 50),
    .thread (.app 0) (.sendRequest true), .loopTop, .timers 0, .poll (.ready [true, false]),
    .dispatch (.frontend (.app 0) ⟨true, 100, 0⟩), .flush, .flush, .dispatch .nothing,
    .dispatch .nothing, .loopTop, .timers 149, .poll (.ready [false, false]), .dispatch .nothing,
    .dispatch .nothing, .dispatch .nothing, .loopTop, .timers 150]

theorem timeouts_fire_waits :
    FiredRight [.passed 0 [], .passed 0 [], .asked ⟨1, 0⟩ 100 50, .passed 149 []] 150 [⟨1, 0⟩] :=
  let final := reached (ProcessModel.machine HeaderCodec.plain).recorded waitsAndTimesOut
  timeouts_fire HeaderCodec.plain final.2 final.1
    (run_reached (ProcessModel.machine HeaderCodec.plain).recorded waitsAndTimesOut)
    (by decide +kernel) _ [] _ _ (by decide +kernel)

end Rpcz.RequestTimers
