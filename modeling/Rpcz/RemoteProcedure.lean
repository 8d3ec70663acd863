import Rpcz.Automaton
import Mathlib.Data.List.Induction

/-!
Remote procedure calls as their users see them. A call is asked, the other side
serves it as it was asked or rejects it, answers it, and the call is completed
once, with an answer or because its time is up.
-/

namespace Rpcz.RemoteProcedure
open Automaton

universe u v w

inductive Act (Call : Type u) (Request : Type v) (Outcome : Type w) where
  /-- `timed` calls may be completed without an answer. -/
  | ask (call : Call) (request : Request) (timed : Bool)
  | serve (call : Call) (request : Request)
  | reject (call : Call) (outcome : Outcome)
  | answer (call : Call) (outcome : Outcome)
  | complete (call : Call) (outcome : Outcome)
deriving DecidableEq

structure Calls (Call : Type u) (Request : Type v) (Outcome : Type w) where
  asked : List (Call × Request × Bool)
  served : List Call
  answered : List (Call × Outcome)
  completed : List Call

variable {Call : Type u} {Request : Type v} {Outcome : Type w}

section Definitions
variable [DecidableEq Call] [DecidableEq Request] [DecidableEq Outcome]

/-- `lapse` is the outcome of a call whose time is up. -/
def Calls.step (lapse : Outcome) (calls : Calls Call Request Outcome) :
    Act Call Request Outcome → Option (Calls Call Request Outcome)
  | .ask call request timed =>
    if call ∈ calls.asked.map Prod.fst then none
    else some { calls with asked := (call, request, timed) :: calls.asked }
  | .serve call request =>
    if call ∉ calls.served ∧
        ((call, request, true) ∈ calls.asked ∨ (call, request, false) ∈ calls.asked) then
      some { calls with served := call :: calls.served }
    else none
  | .reject call outcome =>
    if call ∉ calls.served ∧ call ∈ calls.asked.map Prod.fst then
      some { calls with
        served := call :: calls.served
        answered := (call, outcome) :: calls.answered }
    else none
  | .answer call outcome =>
    if call ∈ calls.served then
      some { calls with answered := (call, outcome) :: calls.answered }
    else none
  | .complete call outcome =>
    if call ∉ calls.completed ∧ ((call, outcome) ∈ calls.answered ∨
        outcome = lapse ∧ ∃ entry ∈ calls.asked, entry.1 = call ∧ entry.2.2 = true) then
      some { calls with completed := call :: calls.completed }
    else none

def machine (lapse : Outcome) :
    Machine (Calls Call Request Outcome) (Act Call Request Outcome) (Act Call Request Outcome) where
  start := ⟨[], [], [], []⟩
  step calls act := (calls.step lapse act).map fun after => (after, [act])

end Definitions

structure Tells (trace : List (Act Call Request Outcome)) (calls : Calls Call Request Outcome) :
    Prop where
  asked : ∀ call request timed,
    (call, request, timed) ∈ calls.asked ↔ .ask call request timed ∈ trace
  served : ∀ call, call ∈ calls.served ↔
    (∃ request, .serve call request ∈ trace) ∨ ∃ outcome, .reject call outcome ∈ trace
  answered : ∀ call outcome, (call, outcome) ∈ calls.answered ↔
    .answer call outcome ∈ trace ∨ .reject call outcome ∈ trace
  completed : ∀ call, call ∈ calls.completed ↔ ∃ outcome, .complete call outcome ∈ trace

/-- When an act may follow a history. -/
def Permitted (lapse : Outcome) (trace : List (Act Call Request Outcome)) :
    Act Call Request Outcome → Prop
  | .ask call _ _ => ∀ request timed, .ask call request timed ∉ trace
  | .serve call request =>
    (∃ timed, .ask call request timed ∈ trace) ∧ (∀ other, .serve call other ∉ trace) ∧
      ∀ outcome, .reject call outcome ∉ trace
  | .reject call _ =>
    (∃ request timed, .ask call request timed ∈ trace) ∧ (∀ other, .serve call other ∉ trace) ∧
      ∀ outcome, .reject call outcome ∉ trace
  | .answer call _ =>
    (∃ request, .serve call request ∈ trace) ∨ ∃ outcome, .reject call outcome ∈ trace
  | .complete call outcome =>
    (∀ other, .complete call other ∉ trace) ∧
      (.answer call outcome ∈ trace ∨ .reject call outcome ∈ trace ∨
        outcome = lapse ∧ ∃ request, .ask call request true ∈ trace)

section Runs
variable [DecidableEq Call] [DecidableEq Request] [DecidableEq Outcome] {lapse : Outcome}
  {calls after : Calls Call Request Outcome} {act : Act Call Request Outcome}
  {trace : List (Act Call Request Outcome)}

omit [DecidableEq Call] [DecidableEq Request] [DecidableEq Outcome] in
theorem tells_new : Tells ([] : List (Act Call Request Outcome)) ⟨[], [], [], []⟩ := by
  constructor <;> simp

theorem Tells.step (tells : Tells trace calls) (fired : calls.step lapse act = some after) :
    Tells (trace ++ [act]) after := by
  cases act with
  | ask call request timed =>
    simp only [Calls.step] at fired
    split at fired <;> cases fired
    constructor
    · intro other given finite
      simp [tells.asked, or_comm]
    · simp [tells.served]
    · simp [tells.answered]
    · simp [tells.completed]
  | serve call request =>
    simp only [Calls.step] at fired
    split at fired <;> cases fired
    constructor
    · simp [tells.asked]
    · intro other
      simp only [List.mem_cons, tells.served, List.mem_append, List.not_mem_nil, or_false,
        reduceCtorEq, Act.serve.injEq]
      constructor
      · intro known
        rcases known with same | served | rejected
        · exact .inl ⟨request, .inr ⟨same, rfl⟩⟩
        · exact .inl (served.imp fun given listed => .inl listed)
        · exact .inr rejected
      · intro known
        rcases known with served | rejected
        · obtain ⟨given, listed | same⟩ := served
          · exact .inr (.inl ⟨given, listed⟩)
          · exact .inl same.1
        · exact .inr (.inr rejected)
    · simp [tells.answered]
    · simp [tells.completed]
  | reject call outcome =>
    simp only [Calls.step] at fired
    split at fired <;> cases fired
    constructor
    · simp [tells.asked]
    · intro other
      simp only [List.mem_cons, tells.served, List.mem_append, List.not_mem_nil, or_false,
        reduceCtorEq, Act.reject.injEq]
      constructor
      · intro known
        rcases known with same | served | rejected
        · exact .inr ⟨outcome, .inr ⟨same, rfl⟩⟩
        · exact .inl served
        · exact .inr (rejected.imp fun given listed => .inl listed)
      · intro known
        rcases known with served | rejected
        · exact .inr (.inl served)
        · obtain ⟨given, listed | same⟩ := rejected
          · exact .inr (.inr ⟨given, listed⟩)
          · exact .inl same.1
    · intro other given
      simp only [List.mem_cons, tells.answered, List.mem_append, List.not_mem_nil, or_false,
        reduceCtorEq, Act.reject.injEq, Prod.mk.injEq]
      constructor
      · intro known
        rcases known with same | answered | rejected
        · exact .inr (.inr same)
        · exact .inl answered
        · exact .inr (.inl rejected)
      · intro known
        rcases known with answered | rejected | same
        · exact .inr (.inl answered)
        · exact .inr (.inr rejected)
        · exact .inl same
    · simp [tells.completed]
  | answer call outcome =>
    simp only [Calls.step] at fired
    split at fired <;> cases fired
    constructor
    · simp [tells.asked]
    · simp [tells.served]
    · intro other given
      simp only [List.mem_cons, tells.answered, List.mem_append, List.not_mem_nil, or_false,
        reduceCtorEq, Act.answer.injEq, Prod.mk.injEq]
      constructor
      · intro known
        rcases known with same | answered | rejected
        · exact .inl (.inr same)
        · exact .inl (.inl answered)
        · exact .inr rejected
      · intro known
        rcases known with (answered | same) | rejected
        · exact .inr (.inl answered)
        · exact .inl same
        · exact .inr (.inr rejected)
    · simp [tells.completed]
  | complete call outcome =>
    simp only [Calls.step] at fired
    split at fired <;> cases fired
    constructor
    · simp [tells.asked]
    · simp [tells.served]
    · simp [tells.answered]
    · intro other
      simp only [List.mem_cons, tells.completed, List.mem_append, List.not_mem_nil, or_false,
        Act.complete.injEq]
      constructor
      · intro known
        rcases known with same | given
        · exact ⟨outcome, .inr ⟨same, rfl⟩⟩
        · exact given.imp fun given listed => .inl listed
      · intro known
        obtain ⟨given, listed | same⟩ := known
        · exact .inr ⟨given, listed⟩
        · exact .inl same.1

theorem Tells.enabled (tells : Tells trace calls) (permitted : Permitted lapse trace act) :
    ∃ after, calls.step lapse act = some after := by
  have unserved : ∀ call, (∀ other, .serve call other ∉ trace) →
      (∀ outcome, .reject call outcome ∉ trace) → call ∉ calls.served := by
    intro call never none known
    rcases (tells.served call).mp known with served | rejected
    · obtain ⟨given, listed⟩ := served
      exact never given listed
    · obtain ⟨given, listed⟩ := rejected
      exact none given listed
  cases act with
  | ask call request timed =>
    refine ⟨_, if_neg ?_⟩
    intro known
    obtain ⟨entry, listed, same⟩ := List.mem_map.mp known
    obtain ⟨other, given, finite⟩ := entry
    subst same
    exact permitted given finite ((tells.asked _ _ _).mp listed)
  | serve call request =>
    obtain ⟨⟨timed, asked⟩, never, none⟩ := permitted
    refine ⟨_, if_pos ⟨unserved call never none, ?_⟩⟩
    have listed := (tells.asked _ _ _).mpr asked
    cases timed with
    | true => exact .inl listed
    | false => exact .inr listed
  | reject call outcome =>
    obtain ⟨⟨request, timed, asked⟩, never, none⟩ := permitted
    refine ⟨_, if_pos ⟨unserved call never none, ?_⟩⟩
    exact List.mem_map_of_mem ((tells.asked _ _ _).mpr asked)
  | answer call outcome => exact ⟨_, if_pos ((tells.served call).mpr permitted)⟩
  | complete call outcome =>
    obtain ⟨first, cause⟩ := permitted
    refine ⟨_, if_pos ⟨?_, ?_⟩⟩
    · intro known
      obtain ⟨given, listed⟩ := (tells.completed call).mp known
      exact first given listed
    · rcases cause with answered | rejected | ⟨same, request, asked⟩
      · exact .inl ((tells.answered _ _).mpr (.inl answered))
      · exact .inl ((tells.answered _ _).mpr (.inr rejected))
      · exact .inr ⟨same, _, (tells.asked _ _ _).mpr asked, rfl, rfl⟩

theorem run_of_permitted (trace : List (Act Call Request Outcome))
    (permitted : ∀ before act rest, trace = before ++ act :: rest → Permitted lapse before act) :
    ∃ calls, Run (machine lapse) anyStep trace calls ∧ Tells trace calls := by
  induction trace using List.reverseRecOn with
  | nil => exact ⟨_, .refl, tells_new⟩
  | append_singleton before act ih =>
    obtain ⟨calls, run, tells⟩ := ih fun first other rest split =>
      permitted first other (rest ++ [act]) (by rw [split, List.append_assoc]; rfl)
    obtain ⟨after, fired⟩ := tells.enabled (permitted before act [] rfl)
    have stepped : (machine lapse).step calls act = some (after, [act]) := by
      change (calls.step lapse act).map _ = _
      rw [fired]
      rfl
    exact ⟨after, run.next trivial stepped, tells.step fired⟩

end Runs

end Rpcz.RemoteProcedure
