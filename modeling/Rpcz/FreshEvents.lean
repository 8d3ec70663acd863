import Rpcz.ReactorRun

/-!
The `revents` of a failed `zmq_poll`. After an error the dispatch loop runs all the
same and finds the flags of the poll before, so a callback may receive from a
socket without a message.
-/

namespace Rpcz.FreshEvents
open Automaton ReactorLoop ReactorRun

variable {Callback Deleted Timer : Type}

/-- The outcome of the latest call of `zmq_poll`. -/
def lastPoll (events : List (Event Callback Deleted Timer)) : Option PollOutcome :=
  (events.filterMap fun
    | .polled outcome => some outcome
    | _ => none).getLast?

/-- A callback runs only where the poll of its iteration has reported a message. -/
def Fresh (events : List (Event Callback Deleted Timer)) : Prop :=
  ∀ before index polled socket callback rest,
    events = before ++ .ran index polled socket callback :: rest →
      ∃ flags, lastPoll before = some (.ready flags) ∧ flags[index]? = some true

/-- A poll fails only while no `revents` is set. -/
def Clean (loop : Loop Callback Deleted Timer) : Action Callback Deleted Timer → Prop
  | .poll .error => ∀ item ∈ loop.reactor.pollItems, item.pollin = false
  | _ => True

theorem lastPoll_append {first second : List (Event Callback Deleted Timer)}
    (silent : ∀ outcome, .polled outcome ∉ second) : lastPoll (first ++ second) = lastPoll first := by
  have quiet : (second.filterMap fun
      | .polled outcome => some outcome
      | _ => none) = [] := by
    refine List.filterMap_eq_nil_iff.mpr (fun event member => ?_)
    cases event with
    | polled outcome => exact absurd member (silent outcome)
    | _ => rfl
  rw [lastPoll, List.filterMap_append, quiet, List.append_nil, lastPoll]

theorem lastPoll_polled (first : List (Event Callback Deleted Timer)) (outcome : PollOutcome) :
    lastPoll (first ++ [.polled outcome]) = some outcome := by
  rw [lastPoll, List.filterMap_append]
  exact List.getLast?_concat

/-- The flags that the dispatch loop has still to look at, from index `i` on. -/
def flaggedFrom (loop : Loop Callback Deleted Timer) (i : Nat) : Prop :=
  ∀ j item, i ≤ j → loop.reactor.pollItems[j]? = some item → item.pollin →
    0 < loop.inbox item.socket

/-- Where the flags come from a poll of this iteration, they stand for messages. -/
def Waiting (loop : Loop Callback Deleted Timer) : Prop :=
  match loop.place with
  | .dispatch i => flaggedFrom loop i
  | .receiving i socket => 0 < loop.inbox socket ∧ flaggedFrom loop (i + 1) ∧
      ∃ item, loop.reactor.pollItems[i]? = some item ∧ item.socket = socket
  | .running i => flaggedFrom loop (i + 1)
  | _ => True

/-- The flags are those of the latest poll, or none is set. -/
def Current (events : List (Event Callback Deleted Timer)) (loop : Loop Callback Deleted Timer) :
    Prop :=
  (∃ flags, lastPoll events = some (.ready flags) ∧
    ∀ j item, loop.reactor.pollItems[j]? = some item → item.pollin = flags.getD j false) ∨
    ∀ item ∈ loop.reactor.pollItems, item.pollin = false

def Dispatching : Place → Prop
  | .dispatch _ => True
  | .receiving _ _ => True
  | .running _ => True
  | _ => False

section Keep
variable {first : Callback} {events emitted : List (Event Callback Deleted Timer)}
  {loop after : Loop Callback Deleted Timer} {allowed : Loop Callback Deleted Timer →
    Action Callback Deleted Timer → Prop} {action : Action Callback Deleted Timer}

theorem silent_perform (loop : Loop Callback Deleted Timer)
    (request : Request Callback Deleted Timer) (outcome : PollOutcome) :
    .polled outcome ∉ (loop.perform request).2 := by
  cases request <;> simp [Loop.perform]

theorem Current.later (current : Current events loop)
    (sameItems : after.reactor.pollItems = loop.reactor.pollItems)
    (silent : ∀ outcome, .polled outcome ∉ emitted) : Current (events ++ emitted) after := by
  rw [Current, lastPoll_append silent, sameItems]
  exact current

theorem current_step (current : Dispatching loop.place → Current events loop)
    (clean : Clean loop action) (turn : Turn loop action after emitted)
    (inside : Dispatching after.place) : Current (events ++ emitted) after := by
  cases turn with
  | arrive socket => exact (current inside).later rfl (by simp)
  | request request busy =>
    have same : (loop.perform request).1.place = loop.place := by cases request <;> rfl
    have items : (loop.perform request).1.reactor.pollItems = loop.reactor.pollItems := by
      cases request <;> rfl
    rw [same] at inside
    exact (current inside).later items (silent_perform loop request)
  | ready here flags reported =>
    refine .inl ⟨flags, lastPoll_polled events _, fun j item found => ?_⟩
    simp only [Reactor.setRevents, List.getElem?_mapIdx, Option.map_eq_some_iff] at found
    obtain ⟨old, -, rfl⟩ := found
    rfl
  | error here => exact .inr clean
  | quiet i here | ran i here | receive i socket here | finish i here =>
    exact (current (by rw [here]; trivial)).later rfl (by simp)
  | ended here outcome place ends =>
    rcases ends with ⟨-, rfl⟩ | ⟨-, rfl⟩ <;> exact absurd inside id
  | _ => exact absurd inside id

theorem current_of_run (run : Run (machine Deleted Timer first) Clean events loop) :
    Dispatching loop.place → Current events loop := by
  refine Steps.invariant (fun events (loop : Loop Callback Deleted Timer) =>
    Dispatching loop.place → Current events loop) (fun inside => absurd inside id) ?_ run
  intro events loop action emitted after _ current clean fired
  exact current_step current clean (step_turn fired)

theorem fresh_of_run (run : Run (machine Deleted Timer first) Clean events loop) :
    Fresh events := by
  intro before index polled socket callback rest shape
  subst shape
  obtain ⟨earlier, pre, post, later, state, action, final, steps, clean, fired, left, -, -⟩ :=
    run.occurs
  have current := current_of_run steps
  have turn := step_turn fired
  generalize emission : pre ++ .ran index polled socket callback :: post = emitted at turn
  have member : .ran index polled socket callback ∈ emitted := emission ▸ by simp
  cases turn with
  | ran i here item found flagged pair held =>
    obtain ⟨rfl, -⟩ : index = i ∧ polled = item.socket ∧ socket = pair.1 ∧
        callback = pair.2 := by simpa using member
    have alone : pre = [] := by
      have size := congrArg List.length emission
      simp at size
      exact List.length_eq_zero_iff.mp (by omega)
    subst alone
    rw [List.append_nil] at left
    subst left
    rcases current (by rw [here]; trivial) with ⟨flags, last, same⟩ | unset
    · refine ⟨flags, last, ?_⟩
      have flag := same index item found
      rw [flagged, List.getD_eq_getElem?_getD] at flag
      cases shown : flags[index]? with
      | none => simp [shown] at flag
      | some value =>
        rw [shown] at flag
        exact congrArg some flag.symm
    · rw [unset item (List.mem_of_getElem? found)] at flagged
      cases flagged
  | request request busy => cases request <;> simp [Loop.perform] at member
  | _ => simp at member

theorem flaggedFrom_mono {i : Nat} (flagged : flaggedFrom loop i)
    (sameItems : after.reactor.pollItems = loop.reactor.pollItems)
    (more : ∀ socket, loop.inbox socket ≤ after.inbox socket) : flaggedFrom after i := by
  intro j item behind found pollin
  rw [sameItems] at found
  exact Nat.lt_of_lt_of_le (flagged j item behind found pollin) (more _)

theorem flaggedFrom_next {i : Nat} (flagged : flaggedFrom loop i) : flaggedFrom loop (i + 1) :=
  fun j item behind found pollin => flagged j item (Nat.le_of_succ_le behind) found pollin

theorem reports_waiting {flags : List Bool} (reported : loop.reports flags) {j : Nat}
    {item : PollItem} (found : loop.reactor.pollItems[j]? = some item)
    (flag : flags.getD j false = true) : 0 < loop.inbox item.socket := by
  simp only [Loop.reports, decide_eq_true_eq] at reported
  have shown : flags[j]? = some true := by
    rw [List.getD_eq_getElem?_getD] at flag
    cases shown : flags[j]? with
    | none => simp [shown] at flag
    | some value =>
      rw [shown] at flag
      exact congrArg some flag
  have together : (loop.reactor.pollItems.zip flags)[j]? = some (item, true) :=
    List.getElem?_zip_eq_some.mpr ⟨found, shown⟩
  exact reported.2 _ (List.mem_of_getElem? together) rfl

theorem waiting_step (listening : Listening loop) (waiting : Waiting loop)
    (clean : Clean loop action) (turn : Turn loop action after emitted) : Waiting after := by
  cases turn with
  | arrive socket =>
    have more : ∀ other, loop.inbox other ≤
        Function.update loop.inbox socket (loop.inbox socket + 1) other := by
      intro other
      by_cases same : other = socket
      · subst same
        simp
      · simp [Function.update_of_ne same]
    simp only [Waiting] at waiting ⊢
    split at waiting
    · next i here =>
      simp only [here]
      exact flaggedFrom_mono waiting rfl more
    · next i other here =>
      simp only [here]
      exact ⟨Nat.lt_of_lt_of_le waiting.1 (more other), flaggedFrom_mono waiting.2.1 rfl more,
        waiting.2.2⟩
    · next i here =>
      simp only [here]
      exact flaggedFrom_mono waiting rfl more
    · trivial
  | request request busy =>
    rcases busy with here | ⟨i, here⟩
    · cases request <;> simp [Waiting, Loop.perform, here]
    · simp only [Waiting, here] at waiting
      cases request <;> simp only [Waiting, Loop.perform, here] <;>
        exact flaggedFrom_mono waiting rfl (fun _ => Nat.le_refl _)
  | ready here flags reported =>
    intro j item _ found pollin
    simp only [Reactor.setRevents, List.getElem?_mapIdx, Option.map_eq_some_iff] at found
    obtain ⟨old, before, rfl⟩ := found
    have some_left := reports_waiting reported before pollin
    exact some_left
  | error here =>
    intro j item _ found pollin
    rw [clean item (List.mem_of_getElem? found)] at pollin
    cases pollin
  | quiet i here item found unset =>
    simp only [Waiting, here] at waiting
    exact flaggedFrom_next waiting
  | ran i here item found flagged pair held =>
    simp only [Waiting, here] at waiting
    have same := listening.matched found held
    exact ⟨same ▸ waiting i item (Nat.le_refl i) found flagged, flaggedFrom_next waiting, item,
      found, same⟩
  | receive i socket here some_left =>
    simp only [Waiting, here] at waiting
    obtain ⟨-, flagged, item, found, rfl⟩ := waiting
    intro j other behind there pollin
    have different : other.socket ≠ item.socket :=
      listening.apart there found (by omega)
    simp only [Function.update_of_ne different]
    exact flagged j other behind there pollin
  | finish i here =>
    simp only [Waiting, here] at waiting
    exact waiting
  | ended here outcome place ends =>
    rcases ends with ⟨-, rfl⟩ | ⟨-, rfl⟩ <;> trivial
  | _ => trivial

theorem waiting_of_run (run : Run (machine Deleted Timer first) Clean events loop) :
    Waiting loop := by
  refine Steps.invariant (fun _ (loop : Loop Callback Deleted Timer) => Waiting loop) ?_ ?_ run
  · exact True.intro
  · intro events loop action emitted after run waiting clean fired
    exact waiting_step (listening_of_run run) waiting clean (step_turn fired)

def FlagAhead (loop : Loop Callback Deleted Timer) : Prop :=
  match loop.place with
  | .dispatch i => ∃ j item, i ≤ j ∧ loop.reactor.pollItems[j]? = some item ∧ item.pollin
  | .faulted => True
  | _ => False

/-- No callback has run since, and the round is not done. -/
def Quiet (events : List (Event Callback Deleted Timer)) : Prop :=
  .roundDone ∉ events ∧ (∀ outcome, .polled outcome ∉ events) ∧
    ∀ index polled socket callback, .ran index polled socket callback ∉ events

def RunsStale (events : List (Event Callback Deleted Timer)) : Prop :=
  ∃ before index polled socket callback rest,
    events = before ++ .ran index polled socket callback :: rest ∧
      ∀ outcome, .polled outcome ∉ before

theorem stale_step (ahead : FlagAhead loop) (turn : Turn loop action after emitted) :
    (Quiet emitted ∧ FlagAhead after) ∨ RunsStale emitted := by
  have nothing : Quiet ([] : List (Event Callback Deleted Timer)) := by simp [Quiet]
  cases turn with
  | arrive socket => exact .inl ⟨nothing, ahead⟩
  | done i here none_left =>
    simp only [FlagAhead, here] at ahead
    obtain ⟨j, item, behind, found, -⟩ := ahead
    have bound := (List.getElem?_eq_some_iff.mp found).1
    have short := List.getElem?_eq_none_iff.mp none_left
    omega
  | quiet i here item found unset =>
    simp only [FlagAhead, here] at ahead
    obtain ⟨j, other, behind, there, flagged⟩ := ahead
    refine .inl ⟨nothing, j, other, ?_, there, flagged⟩
    have different : j ≠ i := by
      rintro rfl
      obtain rfl := Option.some.inj (there.symm.trans found)
      rw [unset] at flagged
      cases flagged
    omega
  | outOfRange i here => exact .inl ⟨nothing, trivial⟩
  | ran i here item found flagged pair held =>
    exact .inr ⟨[], i, item.socket, pair.1, pair.2, [], rfl, by simp⟩
  | request request busy =>
    rcases busy with here | ⟨i, here⟩ <;> simp [FlagAhead, here] at ahead
  | enter here | quit here | rebuild here | overrun here | clean here | timers here =>
    simp [FlagAhead, here] at ahead
  | ready here | error here | ended here | receive i socket here | finish i here =>
    simp [FlagAhead, here] at ahead

theorem stale_of_steps {more : List (Event Callback Deleted Timer)}
    {final : Loop Callback Deleted Timer}
    (steps : Steps (machine Deleted Timer first) allowed loop more final)
    (ahead : FlagAhead loop) : (Quiet more ∧ FlagAhead final) ∨ RunsStale more := by
  refine Steps.invariant (fun more (final : Loop Callback Deleted Timer) =>
    (Quiet more ∧ FlagAhead final) ∨ RunsStale more) (.inl ⟨by simp [Quiet], ahead⟩) ?_ steps
  intro more state action emitted after _ still _ fired
  rcases still with ⟨quiet, ahead⟩ | ⟨before, index, polled, socket, callback, rest, rfl, silent⟩
  · rcases stale_step ahead (step_turn fired) with ⟨next, ahead⟩ |
      ⟨before, index, polled, socket, callback, rest, rfl, silent⟩
    · refine .inl ⟨⟨?_, ?_, ?_⟩, ahead⟩
      · simp [quiet.1, next.1]
      · simp [quiet.2.1, next.2.1]
      · simp [quiet.2.2, next.2.2]
    · refine .inr ⟨more ++ before, index, polled, socket, callback, rest, by simp, fun outcome => ?_⟩
      simp [quiet.2.1, silent]
  · exact .inr ⟨before, index, polled, socket, callback, rest ++ emitted, by simp, silent⟩

theorem stale_of_error {more : List (Event Callback Deleted Timer)}
    {final : Loop Callback Deleted Timer}
    (fired : (machine Deleted Timer first).step loop (.poll .error) = some (after, emitted))
    (unclean : ¬ Clean loop (.poll .error))
    (steps : Steps (machine Deleted Timer first) allowed after more final)
    (goesOn : ¬ Quiet more) : ¬ Fresh (events ++ emitted ++ more) := by
  have turn := step_turn fired
  cases turn with
  | error here =>
    have ahead : FlagAhead { loop with place := .dispatch 0 } := by
      simp only [Clean, not_forall] at unclean
      obtain ⟨item, member, flagged⟩ := unclean
      obtain ⟨j, found⟩ := List.mem_iff_getElem?.mp member
      exact ⟨j, item, Nat.zero_le j, found, by simpa using flagged⟩
    rcases stale_of_steps steps ahead with ⟨quiet, -⟩ |
      ⟨before, index, polled, socket, callback, rest, rfl, silent⟩
    · exact absurd quiet goesOn
    · intro fresh
      obtain ⟨flags, last, -⟩ := fresh (events ++ [.polled .error] ++ before) index polled socket
        callback rest (by simp)
      rw [lastPoll_append silent, lastPoll_polled] at last
      cases last
  | ended here outcome place ends => simp at ends

end Keep

/-- Callbacks run on fresh events only, and never wait in a `recv`, as long as no
poll fails while a flag is set; a poll that does makes a callback run on an old event. -/
theorem callbacks_fresh (first : Callback) :
    (∀ events (loop : Loop Callback Deleted Timer),
      Run (machine Deleted Timer first) Clean events loop → Fresh events ∧ ¬ loop.Blocked) ∧
    ∀ events (loop after : Loop Callback Deleted Timer) emitted more final,
      Run (machine Deleted Timer first) anyStep events loop →
      (machine Deleted Timer first).step loop (.poll .error) = some (after, emitted) →
      ¬ Clean loop (.poll .error) → Steps (machine Deleted Timer first) anyStep after more final →
      ¬ Quiet more → ¬ Fresh (events ++ emitted ++ more) := by
  constructor
  · intro events loop run
    refine ⟨fresh_of_run run, ?_⟩
    rintro ⟨index, socket, here, empty⟩
    have waiting := waiting_of_run run
    simp only [Waiting, here] at waiting
    omega
  · intro events loop after emitted more final _ fired unclean steps goesOn
    exact stale_of_error fired unclean steps goesOn

def interrupted : List (Action Nat Nat Nat) :=
  [.enter, .loopTop, .timers 0, .arrive 0, .poll (.ready [true]), .dispatch, .receive, .finish,
    .dispatch, .loopTop, .timers 0, .poll .error, .dispatch]

/-- After an interrupted poll the callback runs again and waits for a message that
is not there. -/
theorem stale_callback : ¬ ∀ (first : Nat) events (loop : Loop Nat Nat Nat),
    Run (machine Nat Nat first) anyStep events loop → Fresh events ∧ ¬ loop.Blocked := by
  intro claim
  have outcome := claim 4 _ _ (run_reached (machine Nat Nat 4) interrupted)
  refine outcome.2 ⟨0, 0, ?_, ?_⟩ <;> decide +kernel

instance (loop : Loop Callback Deleted Timer) (action : Action Callback Deleted Timer) :
    Decidable (Clean loop action) :=
  match action with
  | .poll .error => inferInstanceAs (Decidable (∀ item ∈ loop.reactor.pollItems, _ = _))
  | .poll (.ready _) | .poll .eterm | .poll .efault => isTrue trivial
  | .arrive _ | .enter | .loopTop | .timers _ | .request _ | .dispatch | .receive | .finish =>
    isTrue trivial

/-- A poll that is interrupted before anything was reported, and the run above. -/
theorem callbacks_fresh_interrupted :
    (∃ events, ∃ loop : Loop Nat Nat Nat, Run (machine Nat Nat 4) Clean events loop ∧
      .polled .error ∈ events ∧ .ran 0 0 0 4 ∈ events ∧ Fresh events ∧ ¬ loop.Blocked) ∧
    ∃ events, ∃ loop : Loop Nat Nat Nat, Run (machine Nat Nat 4) anyStep events loop ∧
      ¬ Fresh events := by
  have parts := @callbacks_fresh Nat Nat Nat 4
  constructor
  · have run : Run (machine Nat Nat 4) Clean _ _ :=
      Steps.of_guarded (run_reached ((machine Nat Nat 4).guarded Clean)
        [.enter, .loopTop, .timers 0, .poll .error, .dispatch, .dispatch, .loopTop, .timers 0,
          .arrive 0, .poll (.ready [true]), .dispatch])
    exact ⟨_, _, run, by decide +kernel, by decide +kernel, parts.1 _ _ run⟩
  · have run := run_reached (machine Nat Nat 4) (interrupted.take 11)
    have failed : (machine Nat Nat 4).step (reached (machine Nat Nat 4) (interrupted.take 11)).1
        (.poll .error) = some (_, _) := step_of_enabled (by decide +kernel) rfl
    let stopped := (reached (machine Nat Nat 4) (interrupted.take 12)).1
    have later := steps_reachedFrom (machine Nat Nat 4) stopped [.dispatch]
    exact ⟨_, _, (run.next trivial failed).trans later,
      parts.2 _ _ _ _ _ _ run failed (by decide +kernel) later
        (fun quiet => quiet.2.2 0 0 0 4 (by decide +kernel))⟩

end Rpcz.FreshEvents
