import Rpcz.BrokerThread
import Rpcz.TimerPasses
import Mathlib.Order.WellFounded

/-!
The deadline of a request. `send_request` adds a signed timeout to an unsigned
clock, and `process_closure_run_map` takes a difference in 64 bits and narrows it
to a signed value. Both are exact unless the deadline lies before the epoch.
-/

namespace Rpcz.DeadlineArithmetic
open Automaton ReactorLoop
open TimerPasses hiding Action Event Turn machine step_turn turn_of_event

/-- `utc_ms() + timeout_ms` in 64 bits. -/
def deadline (now : UInt64) (timeoutMs : Int64) : UInt64 := now + timeoutMs.toUInt64

def exactDeadline (now : UInt64) (timeoutMs : Int64) : Int := now.toNat + timeoutMs.toInt

theorem sendRequest_deadline (cfg : Message.Config) (broker : BrokerThread.Broker)
    (oracle : BrokerThread.Oracle) (info : Message.ConnectionInfo) (ctrl : Message.Controller)
    (data : List Message.Frame) :
    (broker.sendRequest cfg oracle info ctrl data).1.reactor =
      if ctrl.timeoutMs = -1 then broker.reactor
      else broker.reactor.runClosureAt (deadline oracle.now ctrl.timeoutMs)
        ⟨ctrl.eventId, cfg.getWorkerIndex info⟩ := by
  unfold BrokerThread.Broker.sendRequest
  simp only
  split <;> split <;> rfl

theorem toNat_deadline {now : UInt64} (timeoutMs : Int64) (early : now.toNat < 2 ^ 63) :
    ((deadline now timeoutMs).toNat : Int) =
      if 0 ≤ exactDeadline now timeoutMs then exactDeadline now timeoutMs
      else exactDeadline now timeoutMs + 2 ^ 64 := by
  have word : timeoutMs.toUInt64.toNat = timeoutMs.toBitVec.toNat := rfl
  have signed : timeoutMs.toInt = timeoutMs.toBitVec.toInt := rfl
  have size := timeoutMs.toBitVec.isLt
  rw [deadline, exactDeadline, UInt64.toNat_add, word, signed, BitVec.toInt_eq_toNat_cond]
  split <;> split <;> omega

theorem exactDeadline_bounds {now : UInt64} (timeoutMs : Int64) (early : now.toNat < 2 ^ 63) :
    -2 ^ 63 ≤ exactDeadline now timeoutMs ∧ exactDeadline now timeoutMs < 2 ^ 64 ∧
      exactDeadline now timeoutMs - now.toNat < 2 ^ 63 := by
  have signed : timeoutMs.toInt = timeoutMs.toBitVec.toInt := rfl
  have size := timeoutMs.toBitVec.isLt
  rw [exactDeadline, signed, BitVec.toInt_eq_toNat_cond]
  refine ⟨?_, ?_, ?_⟩ <;> split <;> omega

theorem due_iff {now : UInt64} {timeoutMs : Int64} (early : now.toNat < 2 ^ 63) :
    (∀ reading : UInt64, deadline now timeoutMs ≤ reading ↔
      exactDeadline now timeoutMs ≤ reading.toNat) ↔ 0 ≤ exactDeadline now timeoutMs := by
  have key := toNat_deadline timeoutMs early
  have bounds := exactDeadline_bounds timeoutMs early
  constructor
  · intro dueAt
    by_contra before
    rw [if_neg before] at key
    have due := (dueAt now).mpr (by omega)
    rw [UInt64.le_iff_toNat_le] at due
    omega
  · intro after reading
    rw [if_pos after] at key
    rw [UInt64.le_iff_toNat_le]
    omega

structure Requests where
  timers : Timers
  clock : UInt64

inductive Action where
  | request (now : UInt64) (timeoutMs : Int64)
  | process (now : UInt64)
deriving DecidableEq

inductive Event where
  /-- `send_request` has registered a timer. -/
  | requested (closure : Nat) (now : UInt64) (timeoutMs : Int64)
  | passed (now : UInt64) (ran : List Nat) (timeout : Int64)
deriving DecidableEq

def Requests.step (requests : Requests) : Action → Option (Requests × List Event)
  | .request now timeoutMs =>
    if timeoutMs = -1 then some ({ requests with clock := now }, [])
    else some (⟨{ requests.timers with
        reactor := requests.timers.reactor.runClosureAt (deadline now timeoutMs)
          requests.timers.registered
        registered := requests.timers.registered + 1 }, now⟩,
      [.requested requests.timers.registered now timeoutMs])
  | .process now =>
    let processed := requests.timers.reactor.processClosureRunMap now
    some (⟨{ requests.timers with reactor := processed.1 }, now⟩,
      [.passed now processed.2 (pollTimeout now requests.timers.reactor.closureRunMap)])

def machine : Machine Requests Action Event := ⟨⟨Timers.new, 0⟩, Requests.step⟩

/-- The clock values `send_request` reads. -/
def InRange (_ : Requests) : Action → Prop
  | .request now _ => now.toNat < 2 ^ 63
  | .process _ => True

/-- No deadline lies before the epoch. -/
def AfterEpoch (_ : Requests) : Action → Prop
  | .request now timeoutMs => now.toNat < 2 ^ 63 ∧ 0 ≤ exactDeadline now timeoutMs
  | .process _ => True

/-- The clock does not go back. -/
def Forward (requests : Requests) : Action → Prop
  | .request now _ => requests.clock ≤ now
  | .process now => requests.clock ≤ now

def Event.timer : Event → TimerPasses.Event
  | .requested closure now timeoutMs => .registered closure (deadline now timeoutMs)
  | .passed now ran timeout => .passed now ran timeout

/-- Every timer runs in the first pass whose reading reaches the exact deadline. -/
def DueExactly (events : List Event) : Prop :=
  ∀ before closure now timeoutMs mid reading ran timeout rest,
    events = before ++ .requested closure now timeoutMs :: mid ++ .passed reading ran timeout :: rest →
      (closure ∈ ran ↔ exactDeadline now timeoutMs ≤ reading.toNat ∧
        ∀ earlier closures value, .passed earlier closures value ∈ mid →
          (earlier.toNat : Int) < exactDeadline now timeoutMs)

def Left (before : List Event) (reading : UInt64) (closure : Nat) (timestamp : UInt64) : Prop :=
  Pending (before.map Event.timer) closure timestamp ∧ ¬ timestamp ≤ reading

/-- No pass lets the loop sleep without limit while a timer is pending. -/
def NeverEndless (events : List Event) : Prop :=
  ∀ before reading ran timeout rest, events = before ++ .passed reading ran timeout :: rest →
    ∀ closure timestamp, Left before reading closure timestamp → 0 ≤ timeout.toInt

inductive Turn (requests : Requests) : Action → Requests → List Event → Prop where
  | unlimited (now : UInt64) : Turn requests (.request now (-1)) { requests with clock := now } []
  | request (now : UInt64) (timeoutMs : Int64) (limited : timeoutMs ≠ -1) :
      Turn requests (.request now timeoutMs)
        ⟨{ requests.timers with
          reactor := requests.timers.reactor.runClosureAt (deadline now timeoutMs)
            requests.timers.registered
          registered := requests.timers.registered + 1 }, now⟩
        [.requested requests.timers.registered now timeoutMs]
  | process (now : UInt64) :
      Turn requests (.process now)
        ⟨{ requests.timers with
          reactor := (requests.timers.reactor.processClosureRunMap now).1 }, now⟩
        [.passed now (due now requests.timers.reactor.closureRunMap)
          (pollTimeout now requests.timers.reactor.closureRunMap)]

theorem step_turn {requests after : Requests} {action : Action} {emitted : List Event}
    (fired : machine.step requests action = some (after, emitted)) :
    Turn requests action after emitted := by
  change requests.step action = _ at fired
  cases action with
  | request now timeoutMs =>
    simp only [Requests.step] at fired
    split at fired
    · next unlimited =>
      subst unlimited
      obtain ⟨rfl, rfl⟩ := Prod.mk.inj (Option.some.inj fired)
      exact .unlimited now
    · next limited =>
      obtain ⟨rfl, rfl⟩ := Prod.mk.inj (Option.some.inj fired)
      exact .request now timeoutMs limited
  | process now =>
    obtain ⟨rfl, rfl⟩ := Prod.mk.inj (Option.some.inj fired)
    exact .process now

section Runs
variable {events : List Event} {requests : Requests} {allowed : Requests → Action → Prop}

theorem timers_of_run (run : Run machine allowed events requests) :
    Run TimerPasses.machine anyStep (events.map Event.timer) requests.timers ∧
      requests.timers.destroyed = false := by
  refine Steps.invariant (fun events (requests : Requests) =>
    Run TimerPasses.machine anyStep (events.map Event.timer) requests.timers ∧
      requests.timers.destroyed = false) ⟨.refl, rfl⟩ ?_ run
  intro events requests action emitted after _ inside _ fired
  obtain ⟨run, alive⟩ := inside
  rw [List.map_append]
  cases step_turn fired with
  | unlimited now =>
    rw [List.map_nil, List.append_nil]
    exact ⟨run, alive⟩
  | request now timeoutMs limited =>
    have step : TimerPasses.machine.step requests.timers (.runClosureAt (deadline now timeoutMs)) =
        some ({ requests.timers with
          reactor := requests.timers.reactor.runClosureAt (deadline now timeoutMs)
            requests.timers.registered
          registered := requests.timers.registered + 1 },
          [.registered requests.timers.registered (deadline now timeoutMs)]) := by
      simp [TimerPasses.machine, Timers.step, alive]
    exact ⟨run.next trivial step, alive⟩
  | process now =>
    have step : TimerPasses.machine.step requests.timers (.process now) =
        some ({ requests.timers with
          reactor := (requests.timers.reactor.processClosureRunMap now).1 },
          [.passed now (due now requests.timers.reactor.closureRunMap)
            (pollTimeout now requests.timers.reactor.closureRunMap)]) := by
      simp [TimerPasses.machine, Timers.step, alive, Reactor.processClosureRunMap]
    exact ⟨run.next trivial step, alive⟩

theorem requests_met {property : UInt64 → Int64 → Prop}
    (meets : ∀ requests now timeoutMs, allowed requests (.request now timeoutMs) →
      property now timeoutMs) (run : Run machine allowed events requests) {closure : Nat}
    {now : UInt64} {timeoutMs : Int64} (member : .requested closure now timeoutMs ∈ events) :
    property now timeoutMs := by
  obtain ⟨before, rest, rfl⟩ := List.append_of_mem member
  obtain ⟨earlier, pre, post, later, state, action, after, -, permitted, fired, -, -, -⟩ :=
    run.occurs
  have turn := step_turn fired
  generalize emission : pre ++ .requested closure now timeoutMs :: post = emitted at turn
  have inside : .requested closure now timeoutMs ∈ emitted := emission ▸ by simp
  cases turn with
  | request reading timeout limited =>
    obtain ⟨-, rfl, rfl⟩ : closure = state.timers.registered ∧ now = reading ∧
        timeoutMs = timeout := by simpa using inside
    exact meets _ _ _ permitted
  | unlimited | process => simp at inside

theorem passed_of_run {before rest : List Event} {reading : UInt64} {ran : List Nat}
    {timeout : Int64}
    (run : Run machine allowed (before ++ .passed reading ran timeout :: rest) requests) :
    ∃ state, Run machine allowed before state ∧ allowed state (.process reading) ∧
      FiredInTurn (before.map Event.timer) reading ran timeout ∧
      ∀ closure timestamp, Left before reading closure timestamp →
        (∀ other stamp, Left before reading other stamp → timestamp ≤ stamp) →
          timeout = (timestamp - reading).toInt64 := by
  obtain ⟨earlier, pre, post, later, state, action, after, steps, permitted, fired, left, -, -⟩ :=
    run.occurs
  have turn := step_turn fired
  generalize emission : pre ++ .passed reading ran timeout :: post = emitted at turn
  have inside : .passed reading ran timeout ∈ emitted := emission ▸ by simp
  cases turn with
  | process now =>
    obtain ⟨rfl, rfl, rfl⟩ : reading = now ∧ ran = due now state.timers.reactor.closureRunMap ∧
        timeout = pollTimeout now state.timers.reactor.closureRunMap := by simpa using inside
    have alone : pre = [] := by
      have size := congrArg List.length emission
      simp at size
      exact List.length_eq_zero_iff.mp (by omega)
    subst alone
    rw [List.append_nil] at left
    subst left
    obtain ⟨timers, alive⟩ := timers_of_run steps
    have timed := timed_of_run timers
    refine ⟨state, steps, permitted, firedInTurn_of_timed timed alive reading, ?_⟩
    intro closure timestamp left least
    have pending : Pending (before.map Event.timer ++ [.passed reading [] 0]) closure timestamp :=
      pending_pass.mpr left
    exact timed.timeout alive pending
      (fun other stamp pending => least other stamp (pending_pass.mp pending))
  | unlimited | request => simp at inside

theorem due_of_run {before mid rest : List Event} {closure : Nat} {now reading : UInt64}
    {timeoutMs timeout : Int64} {ran : List Nat}
    (run : Run machine allowed (before ++ .requested closure now timeoutMs :: mid ++
      .passed reading ran timeout :: rest) requests) :
    closure ∈ ran ↔ deadline now timeoutMs ≤ reading ∧
      ∀ earlier closures value, .passed earlier closures value ∈ mid →
        earlier < deadline now timeoutMs := by
  obtain ⟨state, -, -, fired, -⟩ := passed_of_run run
  rw [fired.first (before.map Event.timer) closure (deadline now timeoutMs)
    (mid.map Event.timer) (by simp [Event.timer])]
  have same : ∀ earlier closures value, .passed earlier closures value ∈ mid.map Event.timer ↔
      .passed earlier closures value ∈ mid := by
    intro earlier closures value
    rw [List.mem_map]
    constructor
    · rintro ⟨event, member, shown⟩
      cases event <;> simp [Event.timer] at shown
      obtain ⟨rfl, rfl, rfl⟩ := shown
      exact member
    · intro member
      exact ⟨_, member, rfl⟩
  simp only [same]

theorem dueExactly_of_run (run : Run machine AfterEpoch events requests) : DueExactly events := by
  intro before closure now timeoutMs mid reading ran timeout rest shape
  subst shape
  have met : now.toNat < 2 ^ 63 ∧ 0 ≤ exactDeadline now timeoutMs :=
    requests_met (fun _ _ _ allowed => allowed) run
      (List.mem_append_left _ (List.mem_append_right _ (List.mem_cons_self ..)))
  have exactly := (due_iff met.1).mpr met.2
  rw [due_of_run run, exactly]
  refine and_congr_right (fun _ => forall_congr' (fun earlier => ?_))
  refine forall_congr' (fun closures => forall_congr' (fun value => imp_congr_right (fun _ => ?_)))
  rw [← UInt64.not_le, exactly earlier, Int.not_le]

theorem clock_of_run (run : Run machine Forward events requests) {closure : Nat} {now : UInt64}
    {timeoutMs : Int64} (member : .requested closure now timeoutMs ∈ events) :
    now ≤ requests.clock := by
  revert closure now timeoutMs
  refine Steps.invariant (fun events (requests : Requests) => ∀ {closure : Nat} {now : UInt64}
    {timeoutMs : Int64}, .requested closure now timeoutMs ∈ events → now ≤ requests.clock)
    (by simp) ?_ run
  intro events requests action emitted after _ shown forward fired closure now timeoutMs member
  rcases List.mem_append.mp member with old | new
  · have before := shown old
    cases step_turn fired with
    | _ => exact UInt64.le_trans before forward
  · cases step_turn fired with
    | request reading timeout limited =>
      obtain ⟨-, rfl, -⟩ : closure = requests.timers.registered ∧ now = reading ∧
        timeoutMs = timeout := by simpa using new
      exact UInt64.le_refl _
    | unlimited | process => simp at new

theorem least_left {before : List Event} {reading : UInt64} {closure : Nat} {timestamp : UInt64}
    (left : Left before reading closure timestamp) :
    ∃ first stamp, Left before reading first stamp ∧
      ∀ other later, Left before reading other later → stamp ≤ later := by
  have some_left : Set.Nonempty {stamp : UInt64 | ∃ first, Left before reading first stamp} :=
    ⟨timestamp, closure, left⟩
  obtain ⟨stamp, ⟨first, held⟩, least⟩ := (measure UInt64.toNat).wf.has_min _ some_left
  refine ⟨first, stamp, held, fun other later there => ?_⟩
  have above := least later ⟨other, there⟩
  rw [UInt64.le_iff_toNat_le]
  exact Nat.not_lt.mp above

theorem left_request {before : List Event} {reading : UInt64}
    (inRange : ∀ requests now timeoutMs, allowed requests (.request now timeoutMs) →
      now.toNat < 2 ^ 63) (forward : ∀ requests action, allowed requests action →
      Forward requests action) (run : Run machine allowed before requests)
    (later : requests.clock ≤ reading) {closure : Nat} {timestamp : UInt64}
    (left : Left before reading closure timestamp) :
    ∃ now timeoutMs, .requested closure now timeoutMs ∈ before ∧
      timestamp = deadline now timeoutMs ∧ now.toNat < 2 ^ 63 ∧ now ≤ reading := by
  obtain ⟨event, member, shown⟩ := List.mem_map.mp left.1.registered
  cases event with
  | passed => simp [Event.timer] at shown
  | requested other now timeoutMs =>
    obtain ⟨rfl, rfl⟩ : other = closure ∧ deadline now timeoutMs = timestamp := by
      simpa [Event.timer] using shown
    exact ⟨now, timeoutMs, member, rfl, requests_met inRange run member,
      UInt64.le_trans (clock_of_run (run.mono forward) member) later⟩

theorem neverEndless_of_run
    (run : Run machine (fun requests action => AfterEpoch requests action ∧
      Forward requests action) events requests) : NeverEndless events := by
  intro before reading ran timeout rest shape closure timestamp left
  subst shape
  obtain ⟨state, steps, ⟨-, later⟩, fired, -⟩ := passed_of_run run
  obtain ⟨first, stamp, held, least⟩ := least_left left
  obtain ⟨now, timeoutMs, member, rfl, early, since⟩ := left_request
    (fun _ _ _ allowed => allowed.1.1) (fun _ _ allowed => allowed.2) steps later held
  have after : 0 ≤ exactDeadline now timeoutMs :=
    requests_met (fun _ _ _ allowed => allowed.1.2) steps member
  have key := toNat_deadline timeoutMs early
  rw [if_pos after] at key
  have bounds := exactDeadline_bounds timeoutMs early
  rw [UInt64.le_iff_toNat_le] at since
  have positive := (fired.sleeps first _ (pending_pass.mpr held)
    (fun other stamp pending => least other stamp (pending_pass.mp pending)) (by omega)).2
  omega

theorem missed_of_run
    (inRange : ∀ requests now timeoutMs, allowed requests (.request now timeoutMs) →
      now.toNat < 2 ^ 63) {before mid rest : List Event} {closure : Nat} {now reading : UInt64}
    {timeoutMs timeout : Int64} {ran : List Nat}
    (run : Run machine allowed (before ++ .requested closure now timeoutMs :: mid ++
      .passed reading ran timeout :: rest) requests)
    (next : ∀ earlier closures value, .passed earlier closures value ∉ mid)
    (early : reading.toNat < 2 ^ 63) (past : exactDeadline now timeoutMs < 0) :
    ¬ DueExactly (before ++ .requested closure now timeoutMs :: mid ++
      .passed reading ran timeout :: rest) := by
  intro exactly
  have began : now.toNat < 2 ^ 63 := requests_met inRange run
    (List.mem_append_left _ (List.mem_append_right _ (List.mem_cons_self ..)))
  have runs := (exactly _ _ _ _ _ _ _ _ _ rfl).mpr
    ⟨by omega, fun earlier closures value member => absurd member (next earlier closures value)⟩
  have reached := ((due_of_run run).mp runs).1
  have key := toNat_deadline timeoutMs began
  have bounds := exactDeadline_bounds timeoutMs began
  rw [if_neg (by omega)] at key
  rw [UInt64.le_iff_toNat_le] at reached
  omega

/-- The value of a pass is negative just if the earliest deadline left lies before
the epoch and the clock has not gone far beyond the request. -/
theorem endless_iff
    (run : Run machine (fun requests action => InRange requests action ∧
      Forward requests action) events requests) {before rest : List Event} {reading : UInt64}
    {ran : List Nat} {timeout : Int64} (shape : events = before ++ .passed reading ran timeout :: rest)
    {closure : Nat} {now : UInt64} {timeoutMs : Int64}
    (asked : .requested closure now timeoutMs ∈ before)
    (held : Left before reading closure (deadline now timeoutMs))
    (least : ∀ other stamp, Left before reading other stamp → deadline now timeoutMs ≤ stamp) :
    timeout.toInt < 0 ↔
      exactDeadline now timeoutMs < 0 ∧ reading.toNat ≤ exactDeadline now timeoutMs + 2 ^ 63 := by
  subst shape
  obtain ⟨state, steps, ⟨-, later⟩, fired, value⟩ := passed_of_run run
  have early : now.toNat < 2 ^ 63 := requests_met (fun _ _ _ allowed => allowed.1) steps asked
  have since := UInt64.le_trans (clock_of_run (steps.mono (fun _ _ allowed => allowed.2)) asked) later
  have ahead : reading < deadline now timeoutMs := UInt64.not_le.mp held.2
  have distance : (deadline now timeoutMs - reading).toNat =
      (deadline now timeoutMs).toNat - reading.toNat :=
    UInt64.toNat_sub_of_le _ _ (UInt64.le_of_lt ahead)
  have key := toNat_deadline timeoutMs early
  have bounds := exactDeadline_bounds timeoutMs early
  have size := (deadline now timeoutMs).toNat_lt
  rw [UInt64.lt_iff_toNat_lt] at ahead
  rw [UInt64.le_iff_toNat_le] at since
  rw [value _ _ held least, toInt_toInt64, distance]
  split at key <;> split <;> omega

end Runs

/-- The deadline arithmetic is exact for the deadlines that do not lie before the
epoch. Such a deadline is missed, and can make the loop sleep without limit. -/
theorem deadlines_exact (events : List Event) (requests : Requests) :
    (∀ now timeoutMs, now.toNat < 2 ^ 63 →
      ((∀ reading : UInt64, deadline now timeoutMs ≤ reading ↔
        exactDeadline now timeoutMs ≤ reading.toNat) ↔ 0 ≤ exactDeadline now timeoutMs)) ∧
    (Run machine AfterEpoch events requests → DueExactly events) ∧
    (Run machine (fun requests action => AfterEpoch requests action ∧ Forward requests action)
      events requests → NeverEndless events) ∧
    (Run machine InRange events requests →
      ∀ before closure now timeoutMs mid reading ran timeout rest,
        events = before ++ .requested closure now timeoutMs :: mid ++
          .passed reading ran timeout :: rest →
        (∀ earlier closures value, .passed earlier closures value ∉ mid) →
        reading.toNat < 2 ^ 63 → exactDeadline now timeoutMs < 0 → ¬ DueExactly events) ∧
    (Run machine (fun requests action => InRange requests action ∧ Forward requests action)
      events requests →
      ∀ before reading ran timeout rest, events = before ++ .passed reading ran timeout :: rest →
        ∀ closure now timeoutMs, .requested closure now timeoutMs ∈ before →
        Left before reading closure (deadline now timeoutMs) →
        (∀ other stamp, Left before reading other stamp → deadline now timeoutMs ≤ stamp) →
        (timeout.toInt < 0 ↔ exactDeadline now timeoutMs < 0 ∧
          reading.toNat ≤ exactDeadline now timeoutMs + 2 ^ 63)) := by
  refine ⟨fun now _ early => due_iff early, dueExactly_of_run, neverEndless_of_run, ?_, ?_⟩
  · rintro run before closure now timeoutMs mid reading ran timeout rest rfl next early past
    exact missed_of_run (fun _ _ _ allowed => allowed) run next early past
  · intro run before reading ran timeout rest shape closure now timeoutMs asked held least
    exact endless_iff run shape asked held least

instance (requests : Requests) (action : Action) : Decidable (InRange requests action) :=
  match action with
  | .request now _ => inferInstanceAs (Decidable (now.toNat < _))
  | .process _ => isTrue trivial

instance (requests : Requests) (action : Action) : Decidable (AfterEpoch requests action) :=
  match action with
  | .request now _ => inferInstanceAs (Decidable (now.toNat < _ ∧ _ ≤ _))
  | .process _ => isTrue trivial

instance (requests : Requests) (action : Action) : Decidable (Forward requests action) :=
  match action with
  | .request now _ => inferInstanceAs (Decidable (requests.clock ≤ now))
  | .process now => inferInstanceAs (Decidable (requests.clock ≤ now))

/-- The least timeout there is, requested at some time of the year 2023. -/
def longAgo : List Action :=
  [.request 1700000000000 (-9223372036854775808), .process 1700000000000]

/-- A request whose timeout is the least number never expires, and the loop that
waits for it sleeps without limit. -/
theorem deadline_wraps : ¬ ∀ events requests, Run machine (fun requests action =>
    InRange requests action ∧ Forward requests action) events requests →
      DueExactly events ∧ NeverEndless events := by
  intro claim
  have run : Run machine (fun requests action => InRange requests action ∧
      Forward requests action) _ _ :=
    Steps.of_guarded (run_reached (machine.guarded (fun requests action =>
      InRange requests action ∧ Forward requests action)) longAgo)
  have endless := (claim _ _ run).2 [.requested 0 1700000000000 (-9223372036854775808)]
    1700000000000 [] (-9223372036854775808) [] (by decide +kernel) 0 9223373736854775808
    ⟨⟨[], [], by decide +kernel, by simp⟩, by decide⟩
  revert endless
  decide +kernel

/-- Three requests, and the one above. -/
theorem deadlines_exact_longAgo :
    (∃ events requests, Run machine AfterEpoch events requests ∧
      .passed 1005 [0] 15 ∈ events ∧ DueExactly events ∧ NeverEndless events) ∧
    ∃ events requests, Run machine InRange events requests ∧ ¬ DueExactly events := by
  constructor
  · have run : Run machine (fun requests action => AfterEpoch requests action ∧
        Forward requests action) _ _ :=
      Steps.of_guarded (run_reached (machine.guarded (fun requests action =>
        AfterEpoch requests action ∧ Forward requests action))
        [.request 1000 (-5), .request 1000 20, .request 1001 (-1), .process 1005])
    have exactly := run.mono (fun _ _ allowed => allowed.1)
    exact ⟨_, _, exactly, by decide +kernel, (deadlines_exact _ _).2.1 exactly,
      (deadlines_exact _ _).2.2.1 run⟩
  · have run : Run machine InRange _ _ :=
      Steps.of_guarded (run_reached (machine.guarded InRange) longAgo)
    have shape : (reached (machine.guarded InRange) longAgo).2 =
        [.requested 0 1700000000000 (-9223372036854775808),
          .passed 1700000000000 [] (-9223372036854775808)] := by decide +kernel
    rw [shape] at run
    exact ⟨_, _, run, (deadlines_exact _ _).2.2.2.1 run [] _ _ _ [] _ _ _ [] rfl (by simp)
      (by decide) (by decide)⟩

end Rpcz.DeadlineArithmetic
