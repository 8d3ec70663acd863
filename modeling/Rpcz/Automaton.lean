import Mathlib.Data.List.Basic

/-!
Labelled automata with emitted events. An action resolves every choice the
automaton leaves open (scheduling, input, oracle answers), so a step is a
partial function and a concrete run can be evaluated. A run may be confined to
steps that meet a condition on the state before the step and the action taken.
-/

namespace Rpcz.Automaton

universe u v w

/-- A step answers `none` when the action is not enabled. -/
structure Machine (State : Type u) (Action : Type v) (Event : Type w) where
  start : State
  step : State → Action → Option (State × List Event)

variable {State : Type u} {Action : Type v} {Event : Type w}

def anyStep : State → Action → Prop := fun _ _ => True

/-- Finitely many allowed steps from `origin`, with the events emitted on the way. -/
inductive Steps (machine : Machine State Action Event) (allowed : State → Action → Prop)
    (origin : State) : List Event → State → Prop where
  | refl : Steps machine allowed origin [] origin
  | next {events emitted : List Event} {state after : State} {action : Action}
      (earlier : Steps machine allowed origin events state) (permitted : allowed state action)
      (fired : machine.step state action = some (after, emitted)) :
      Steps machine allowed origin (events ++ emitted) after

abbrev Run (machine : Machine State Action Event) (allowed : State → Action → Prop) :
    List Event → State → Prop :=
  Steps machine allowed machine.start

section Rules
variable {machine : Machine State Action Event} {allowed other : State → Action → Prop}

theorem Steps.trans {origin middle final : State} {first second : List Event}
    (before : Steps machine allowed origin first middle)
    (later : Steps machine allowed middle second final) :
    Steps machine allowed origin (first ++ second) final := by
  induction later with
  | refl => simpa using before
  | next earlier permitted fired ih =>
    rw [← List.append_assoc]
    exact .next ih permitted fired

theorem Steps.single {state after : State} {action : Action} {emitted : List Event}
    (permitted : allowed state action) (fired : machine.step state action = some (after, emitted)) :
    Steps machine allowed state emitted after := by
  simpa using Steps.next .refl permitted fired

theorem Steps.mono (weaker : ∀ state action, allowed state action → other state action)
    {origin final : State} {events : List Event} (steps : Steps machine allowed origin events final) :
    Steps machine other origin events final := by
  induction steps with
  | refl => exact .refl
  | next earlier permitted fired ih => exact .next ih (weaker _ _ permitted) fired

theorem Steps.any {origin final : State} {events : List Event}
    (steps : Steps machine allowed origin events final) :
    Steps machine anyStep origin events final :=
  steps.mono (fun _ _ _ => trivial)

/-- The induction rule for a property of the history and the state together. -/
theorem Steps.invariant (property : List Event → State → Prop) {origin : State}
    (base : property [] origin)
    (keep : ∀ events state action emitted after, Steps machine allowed origin events state →
      property events state → allowed state action →
      machine.step state action = some (after, emitted) → property (events ++ emitted) after)
    {events : List Event} {final : State} (steps : Steps machine allowed origin events final) :
    property events final := by
  induction steps with
  | refl => exact base
  | next earlier permitted fired ih => exact keep _ _ _ _ _ earlier ih permitted fired

/-- What an invariant adds to the condition on the steps. -/
theorem Steps.strengthen (property : State → Prop) {origin : State} (base : property origin)
    (keep : ∀ state action after emitted, property state → allowed state action →
      machine.step state action = some (after, emitted) → property after ∧ other state action)
    {events : List Event} {final : State} (steps : Steps machine allowed origin events final) :
    property final ∧ Steps machine other origin events final := by
  induction steps with
  | refl => exact ⟨base, .refl⟩
  | next earlier permitted fired ih =>
    have step := keep _ _ _ _ ih.1 permitted fired
    exact ⟨step.1, .next ih.2 step.2 fired⟩

theorem append_split {α : Type*} {first second before after : List α} {item : α}
    (whole : first ++ second = before ++ item :: after) :
    (∃ rest, first = before ++ item :: rest ∧ after = rest ++ second) ∨
      ∃ pre, before = first ++ pre ∧ second = pre ++ item :: after := by
  rcases List.append_eq_append_iff.mp whole with ⟨gap, left, right⟩ | ⟨rest, left, right⟩
  · exact .inr ⟨gap, left, right⟩
  · cases rest with
    | nil =>
      rw [List.append_nil] at left
      exact .inr ⟨[], by simpa using left.symm, right.symm⟩
    | cons head tail =>
      obtain ⟨rfl, same⟩ := List.cons.inj right
      exact .inl ⟨tail, left, same⟩

inductive Occurs (machine : Machine State Action Event) (allowed : State → Action → Prop)
    (origin : State) (before : List Event) (event : Event) (rest : List Event) (final : State) :
    Prop where
  | at (events pre post later : List Event) (state : State) (action : Action) (after : State)
      (earlier : Steps machine allowed origin events state) (permitted : allowed state action)
      (fired : machine.step state action = some (after, pre ++ event :: post))
      (left : before = events ++ pre) (remaining : Steps machine allowed after later final)
      (right : rest = post ++ later)

theorem Steps.occurs {origin final : State} {before rest : List Event} {event : Event}
    (steps : Steps machine allowed origin (before ++ event :: rest) final) :
    Occurs machine allowed origin before event rest final := by
  generalize whole : before ++ event :: rest = history at steps
  induction steps generalizing rest with
  | refl => simp at whole
  | @next events emitted state after action earlier permitted fired ih =>
    rcases List.append_eq_append_iff.mp whole with ⟨gap, left, right⟩ | ⟨pre, left, right⟩
    · cases gap with
      | nil =>
        simp only [List.append_nil, List.nil_append] at left right
        subst left right
        exact .at events [] rest [] state action after earlier permitted fired (by simp) .refl
          (by simp)
      | cons head tail =>
        simp only [List.cons_append, List.cons.injEq] at right
        obtain ⟨rfl, rfl⟩ := right
        obtain ⟨events', pre, post, later, state', action', after', earlier', permitted', fired',
          front, remaining, back⟩ := ih left.symm
        exact .at events' pre post (later ++ emitted) state' action' after' earlier' permitted'
          fired' front (remaining.next permitted fired) (by rw [back, List.append_assoc])
    · subst left right
      exact .at events pre rest [] state action after earlier permitted fired rfl .refl (by simp)

end Rules

section Simulation
variable {machine : Machine State Action Event} {allowed : State → Action → Prop}
  {Form Deed Sign : Type*} {abstract : Machine Form Deed Sign} {permits : Form → Deed → Prop}

/-- The induction rule for a simulation: steps of another automaton match each step. -/
theorem Steps.simulated (related : List Event → State → List Sign → Form → Prop) {origin : State}
    {source : Form}
    (base : ∃ signs form, Steps abstract permits source signs form ∧ related [] origin signs form)
    (keep : ∀ events state signs form action emitted after,
      Steps machine allowed origin events state → Steps abstract permits source signs form →
      related events state signs form → allowed state action →
      machine.step state action = some (after, emitted) →
      ∃ more next, Steps abstract permits form more next ∧
        related (events ++ emitted) after (signs ++ more) next)
    {events : List Event} {final : State} (steps : Steps machine allowed origin events final) :
    ∃ signs form, Steps abstract permits source signs form ∧ related events final signs form := by
  induction steps with
  | refl => exact base
  | next earlier permitted fired ih =>
    obtain ⟨signs, form, told, here⟩ := ih
    obtain ⟨more, next, later, there⟩ := keep _ _ _ _ _ _ _ earlier told here permitted fired
    exact ⟨signs ++ more, next, told.trans later, there⟩

end Simulation

def exec (machine : Machine State Action Event) :
    State → List Action → Option (State × List Event)
  | state, [] => some (state, [])
  | state, action :: rest =>
    match machine.step state action with
    | none => none
    | some (after, emitted) =>
      match exec machine after rest with
      | none => none
      | some (final, events) => some (final, emitted ++ events)

theorem Steps.of_exec {machine : Machine State Action Event} {origin final : State}
    {actions : List Action} {events : List Event}
    (done : exec machine origin actions = some (final, events)) :
    Steps machine anyStep origin events final := by
  induction actions generalizing origin events with
  | nil =>
    simp only [exec, Option.some.injEq, Prod.mk.injEq] at done
    obtain ⟨rfl, rfl⟩ := done
    exact .refl
  | cons action rest ih =>
    simp only [exec] at done
    split at done
    · cases done
    · next after emitted fired =>
      split at done
      · cases done
      · next final' events' remaining =>
        simp only [Option.some.injEq, Prod.mk.injEq] at done
        obtain ⟨rfl, rfl⟩ := done
        exact (Steps.single trivial fired).trans (ih remaining)

theorem Steps.of_exec_mem {machine : Machine State Action Event} {origin final : State}
    {actions : List Action} {events : List Event}
    (done : exec machine origin actions = some (final, events)) :
    Steps machine (fun _ action => action ∈ actions) origin events final := by
  induction actions generalizing origin events with
  | nil =>
    simp only [exec, Option.some.injEq, Prod.mk.injEq] at done
    obtain ⟨rfl, rfl⟩ := done
    exact .refl
  | cons action rest ih =>
    simp only [exec] at done
    split at done
    · cases done
    · next after emitted fired =>
      split at done
      · cases done
      · next final' events' remaining =>
        simp only [Option.some.injEq, Prod.mk.injEq] at done
        obtain ⟨rfl, rfl⟩ := done
        have first : Steps machine (fun _ other => other ∈ action :: rest) origin emitted after :=
          .single List.mem_cons_self fired
        exact first.trans ((ih remaining).mono fun _ _ member => List.mem_cons_of_mem action member)

/-- The state and the history a list of actions leads to, if all are enabled. -/
def reached (machine : Machine State Action Event) (actions : List Action) : State × List Event :=
  (exec machine machine.start actions).getD (machine.start, [])

theorem run_reached (machine : Machine State Action Event) (actions : List Action) :
    Run machine anyStep (reached machine actions).2 (reached machine actions).1 := by
  unfold reached
  cases done : exec machine machine.start actions with
  | none => exact .refl
  | some final => exact Steps.of_exec done

theorem run_reached_mem (machine : Machine State Action Event) (actions : List Action) :
    Run machine (fun _ action => action ∈ actions) (reached machine actions).2
      (reached machine actions).1 := by
  unfold reached
  cases done : exec machine machine.start actions with
  | none => exact .refl
  | some final => exact Steps.of_exec_mem done

def reachedFrom (machine : Machine State Action Event) (origin : State) (actions : List Action) :
    State × List Event :=
  (exec machine origin actions).getD (origin, [])

theorem steps_reachedFrom (machine : Machine State Action Event) (origin : State)
    (actions : List Action) : Steps machine anyStep origin (reachedFrom machine origin actions).2
      (reachedFrom machine origin actions).1 := by
  unfold reachedFrom
  cases done : exec machine origin actions with
  | none => exact .refl
  | some final => exact Steps.of_exec done

theorem step_of_enabled {machine : Machine State Action Event} {state : State} {action : Action}
    {events : List Event} (enabled : (machine.step state action).isSome = true)
    (emits : ((machine.step state action).getD (state, [])).2 = events) :
    machine.step state action = some (((machine.step state action).getD (state, [])).1, events) := by
  cases done : machine.step state action with
  | none => simp [done] at enabled
  | some final =>
    rw [done] at emits
    rw [← emits]
    rfl

def Machine.guarded (machine : Machine State Action Event) (allowed : State → Action → Prop)
    [∀ state action, Decidable (allowed state action)] : Machine State Action Event where
  start := machine.start
  step state action := if allowed state action then machine.step state action else none

theorem Steps.of_guarded {machine : Machine State Action Event} {allowed : State → Action → Prop}
    [∀ state action, Decidable (allowed state action)] {origin final : State} {events : List Event}
    (steps : Steps (machine.guarded allowed) anyStep origin events final) :
    Steps machine allowed origin events final := by
  induction steps with
  | refl => exact .refl
  | next earlier permitted fired ih =>
    simp only [Machine.guarded] at fired
    split at fired
    · next meets => exact .next ih meets fired
    · cases fired

section Recording
variable {machine : Machine State Action Event} {allowed : State → Action → Prop}

def Machine.recorded (machine : Machine State Action Event) :
    Machine State Action (Action × List Event) where
  start := machine.start
  step state action := (machine.step state action).map fun result => (result.1, [(action, result.2)])

theorem recorded_step {state after : State} {action : Action} {entries : List (Action × List Event)}
    (fired : machine.recorded.step state action = some (after, entries)) :
    ∃ emitted, machine.step state action = some (after, emitted) ∧ entries = [(action, emitted)] := by
  obtain ⟨result, stepped, same⟩ := Option.map_eq_some_iff.mp fired
  cases same
  exact ⟨result.2, stepped, rfl⟩

theorem Steps.of_recorded {origin final : State} {history : List (Action × List Event)}
    (steps : Steps machine.recorded allowed origin history final) :
    Steps machine allowed origin (history.flatMap Prod.snd) final := by
  induction steps with
  | refl => exact .refl
  | next earlier permitted fired ih =>
    obtain ⟨emitted, stepped, rfl⟩ := recorded_step fired
    rw [List.flatMap_append, List.flatMap_singleton]
    exact ih.next permitted stepped

end Recording

end Rpcz.Automaton
