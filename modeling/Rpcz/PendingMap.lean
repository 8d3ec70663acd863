import Rpcz.History

/-!
The pending map of a worker is the table its commands drive: starting an rpc
opens its event id, and responses and timeouts close theirs.
-/

namespace Rpcz.PendingMap
open Automaton Message EventLog ReactorLoop RequestHandlers WorkerThread BrokerThread ProcessModel
  Moves PendingTable History

abbrev PendingOp := Op UInt64 Controller Outcome

/-- What a command does to the pending map of the worker that executes it. -/
def opOf (cfg : Config) : WorkerCmd → Option PendingOp
  | .startRpc ctrl => some (.opening ctrl.eventId ctrl)
  | .handleTimeout eventId => some (.closing eventId Outcome.timeout)
  | .handleData _ header payload =>
    (cfg.responseHeader header).map (fun response =>
      .closing response.getEventId (response.outcome payload))
  | _ => none

def opsOf (cfg : Config) (commands : List WorkerCmd) : List PendingOp :=
  commands.filterMap (opOf cfg)

@[simp] theorem opsOf_nil (cfg : Config) : opsOf cfg [] = [] := rfl

@[simp] theorem opsOf_append (cfg : Config) (first second : List WorkerCmd) :
    opsOf cfg (first ++ second) = opsOf cfg first ++ opsOf cfg second :=
  List.filterMap_append ..

def pendingAfter (cfg : Config) (commands : List WorkerCmd) :
    Table UInt64 Controller × List (Delivery UInt64 Controller Outcome) :=
  replay (fun _ => none) (opsOf cfg commands)

theorem responseHeader_some {cfg : Config} {header : Bytes} {response : ResponseHeader}
    (found : cfg.responseHeader header = some response) :
    ∃ parsed, cfg.proto.parseHeader header = some parsed ∧ parsed.reqHdr = none ∧
      parsed.respHdr = some response := by
  unfold Config.responseHeader at found
  split at found
  · cases found
  · next parsed readable =>
    split at found
    · cases found
    · next plain => exact ⟨parsed, readable, plain, found⟩

section Exec
variable (cfg : Config) (factories : Nat → Option Factories) (index fresh : Nat) (worker : Worker)

theorem exec_closing {cmd : WorkerCmd} {eventId : UInt64} {outcome : Outcome}
    (closes : opOf cfg cmd = some (.closing eventId outcome)) :
    worker.exec cfg factories index fresh cmd = worker.complete index fresh eventId outcome := by
  cases cmd with
  | startRpc | runClosure | registerSvc | quitWorker => simp [opOf] at closes
  | handleTimeout id =>
    simp only [opOf, Option.some.injEq, Op.closing.injEq] at closes
    obtain ⟨rfl, rfl⟩ := closes
    rfl
  | handleData info header payload =>
    simp only [opOf, Option.map_eq_some_iff, Op.closing.injEq] at closes
    obtain ⟨response, found, rfl, rfl⟩ := closes
    obtain ⟨parsed, readable, plain, carried⟩ := responseHeader_some found
    simp only [Worker.exec, Worker.handleData, readable, plain, carried]
    rfl

theorem exec_opening {cmd : WorkerCmd} {eventId : UInt64} {ctrl : Controller}
    (opens : opOf cfg cmd = some (.opening eventId ctrl)) :
    cmd = .startRpc ctrl ∧ eventId = ctrl.eventId := by
  cases cmd with
  | runClosure | registerSvc | quitWorker | handleTimeout => simp [opOf] at opens
  | handleData info header payload => simp [opOf] at opens
  | startRpc started =>
    simp only [opOf, Option.some.injEq, Op.opening.injEq] at opens
    obtain ⟨rfl, rfl⟩ := opens
    exact ⟨rfl, rfl⟩

theorem exec_neutral {cmd : WorkerCmd} (neutral : opOf cfg cmd = none) :
    (worker.exec cfg factories index fresh cmd).worker.pending = worker.pending ∧
      ∀ event ∈ (worker.exec cfg factories index fresh cmd).events,
        (∀ i ctrl outcome, event ≠ .completed i ctrl outcome) ∧ ∀ i ctrl, event ≠ .deleted i ctrl := by
  have created : ∀ info, ∀ event ∈ (getHandler factories index fresh worker.handlers info).2.events,
      (∀ i ctrl outcome, event ≠ .completed i ctrl outcome) ∧ ∀ i ctrl, event ≠ .deleted i ctrl := by
    intro info
    unfold getHandler
    split <;> simp
  have ran : ∀ (handler : RequestHandler) header payload,
      ∀ event ∈ (handler.handleRequest cfg header payload).2,
        (∀ i ctrl outcome, event ≠ .completed i ctrl outcome) ∧ ∀ i ctrl, event ≠ .deleted i ctrl := by
    intro handler header payload
    unfold RequestHandler.handleRequest dispatchRequest
    split
    · simp
    · simp only
      split
      · simp
      · split
        · simp
        · split <;> simp
  cases cmd with
  | startRpc | handleTimeout => simp [opOf] at neutral
  | runClosure | quitWorker => simp [Worker.exec]
  | registerSvc info name svc =>
    refine ⟨rfl, fun event member => ?_⟩
    rcases List.mem_append.mp member with old | removed
    · exact created _ event old
    · obtain ⟨service, _, rfl⟩ := List.mem_map.mp removed
      simp
  | handleData info header payload =>
    simp only [opOf, Option.map_eq_none_iff, Config.responseHeader] at neutral
    simp only [Worker.exec, Worker.handleData]
    split
    · simp
    · next parsed readable =>
      rw [readable] at neutral
      split
      · refine ⟨rfl, fun event member => ?_⟩
        rcases List.mem_append.mp member with old | new
        · exact created _ event old
        · exact ran _ _ _ event new
      · next plain =>
        simp only [plain] at neutral
        simp [neutral]

/-- The only commands that complete a controller close its event id, and the
controller is deleted right after. -/
theorem exec_completes (cmd : WorkerCmd) (i : Nat) (ctrl : Controller)
    (touched : (∃ outcome, .completed i ctrl outcome ∈
        (worker.exec cfg factories index fresh cmd).events) ∨
      .deleted i ctrl ∈ (worker.exec cfg factories index fresh cmd).events) :
    i = index ∧ ∃ eventId outcome, opOf cfg cmd = some (.closing eventId outcome) ∧
      worker.pending eventId = some ctrl ∧
      (worker.exec cfg factories index fresh cmd).events =
        [.completed index ctrl outcome, .deleted index ctrl] := by
  cases kind : opOf cfg cmd with
  | none =>
    have silent := (exec_neutral cfg factories index fresh worker kind).2
    rcases touched with ⟨outcome, member⟩ | member
    · exact absurd rfl ((silent _ member).1 i ctrl outcome)
    · exact absurd rfl ((silent _ member).2 i ctrl)
  | some op =>
    cases op with
    | opening eventId started =>
      obtain ⟨rfl, _⟩ := exec_opening cfg kind
      simp [Worker.exec, Worker.startRpc] at touched
    | closing eventId outcome =>
      rw [exec_closing cfg factories index fresh worker kind] at touched ⊢
      unfold Worker.complete at touched ⊢
      split at touched
      · simp at touched
      · next held found =>
        simp only [List.mem_cons, Event.completed.injEq, List.not_mem_nil, or_false, reduceCtorEq,
          Event.deleted.injEq, false_or] at touched
        have same : i = index ∧ ctrl = held := by
          rcases touched with ⟨_, rfl, rfl, _⟩ | ⟨rfl, rfl⟩ <;> exact ⟨rfl, rfl⟩
        obtain ⟨rfl, rfl⟩ := same
        exact ⟨rfl, eventId, outcome, rfl, found, rfl⟩

theorem exec_replay (cmd : WorkerCmd) :
    (worker.exec cfg factories index fresh cmd).worker.pending =
        (replay worker.pending (opsOf cfg [cmd])).1 ∧
      completions index (worker.exec cfg factories index fresh cmd).events =
        (replay worker.pending (opsOf cfg [cmd])).2.map
          (fun delivery => (delivery.entry, delivery.value)) := by
  cases kind : opOf cfg cmd with
  | none =>
    obtain ⟨pending, silent⟩ := exec_neutral cfg factories index fresh worker kind
    have quiet : opsOf cfg [cmd] = [] := by simp [opsOf, kind]
    rw [quiet]
    refine ⟨pending, List.filterMap_eq_nil_iff.mpr (fun event member => ?_)⟩
    have other := (silent event member).1
    cases event with
    | completed i ctrl outcome => exact absurd rfl (other i ctrl outcome)
    | _ => rfl
  | some op =>
    have single : opsOf cfg [cmd] = [op] := by simp [opsOf, kind]
    rw [single]
    cases op with
    | opening eventId started =>
      obtain ⟨rfl, rfl⟩ := exec_opening cfg kind
      simp [Worker.exec, Worker.startRpc, replay, PendingTable.apply, completions]
    | closing eventId outcome =>
      rw [exec_closing cfg factories index fresh worker kind]
      unfold Worker.complete
      cases found : worker.pending eventId with
      | none => simp [replay, PendingTable.apply, found, completions]
      | some ctrl => simp [replay, PendingTable.apply, found, completions]

end Exec

/-- The pending map and the completions of every worker follow from the
commands it executed. -/
def Replayed (cfg : Config) (events : List Event) (process : Process) : Prop :=
  ∀ worker, (process.workers worker).pending = (pendingAfter cfg (processed worker events)).1 ∧
    completions worker events = (pendingAfter cfg (processed worker events)).2.map
      (fun delivery => (delivery.entry, delivery.value))

variable {cfg : Config} {process after : Process} {events emitted : List Event}
  {allowed : Process → Action → Prop}

theorem Replayed.silent_step (replayed : Replayed cfg events process)
    (pending : ∀ worker, (after.workers worker).pending = (process.workers worker).pending)
    (elsewhere : ∀ event ∈ emitted, origin event ≠ .popped ∧ origin event ≠ .worker) :
    Replayed cfg (events ++ emitted) after := by
  intro worker
  have noPopped := processed_other worker (fun event member => (elsewhere event member).1)
  have noCompleted := completions_other worker (fun event member => (elsewhere event member).2)
  rw [processed_append, completions_append, noPopped, noCompleted, pending, List.append_nil,
    List.append_nil]
  exact replayed worker

theorem replayed_of_run (run : Run (machine cfg) allowed events process) :
    Replayed cfg events process := by
  refine Steps.invariant (Replayed cfg) ?_ ?_ run
  · intro worker
    exact ⟨rfl, rfl⟩
  · intro events process action emitted after _ replayed _ fired
    have brokerEvents : ∀ result : Broker × List Event,
        (∀ event ∈ result.2, origin event = .broker) →
        ∀ event ∈ result.2 ++ queuedEvents result.1.outbox,
          origin event ≠ .popped ∧ origin event ≠ .worker := by
      intro result silent event member
      rcases List.mem_append.mp member with left | right
      · rw [silent event left]; decide
      · rw [queuedEvents_origin event right]; decide
    cases step_move fired with
    | thread thread action after emitted running move =>
      obtain ⟨_, workers, _, _, silent⟩ := threadMove_frame move
      refine replayed.silent_step (fun worker => by rw [workers]) (fun event member => ?_)
      rw [silent event member]
      decide
    | loopTop phase performed =>
      exact replayed.silent_step (fun _ => rfl) (brokerEvents _ (loopTop_origin _))
    | timers now phase performed =>
      exact replayed.silent_step (fun _ => rfl) (brokerEvents _ (runTimers_origin _ _ _))
    | poll outcome phase performed =>
      exact replayed.silent_step (fun _ => rfl) (brokerEvents _ (afterPoll_origin _ _))
    | finished | quiet => exact replayed.silent_step (fun _ => rfl) (by simp)
    | outOfRange => exact replayed.silent_step (fun _ => rfl) (by simp [origin])
    | command i sender oracle cmd rest phase performed slot unread result same =>
      refine replayed.silent_step (fun _ => rfl) (fun event member => ?_)
      rcases List.mem_cons.mp member with rfl | later
      · simp [origin]
      · exact brokerEvents result (same ▸ handleCommand_origin _ _ _ _ _) event later
    | message i callback frames phase performed slot network nonempty result same =>
      exact replayed.silent_step (fun _ => rfl)
        (brokerEvents result (same ▸ receive_origin _ _ _ _))
    | flush output rest live unperformed =>
      refine replayed.silent_step
        (fun worker => (perform_workers (process.setOutbox rest) output worker).2.1)
        (fun event member => ?_)
      rw [perform_origin _ _ event member]
      decide
    | worker index cmd rest legal running idle unread result same =>
      have silent : ∀ event ∈ result.events, origin event = .worker :=
        same ▸ exec_origin _ _ _ _ _ _
      have unpopped : ∀ worker, processed worker result.events = [] := fun worker =>
        processed_other worker (fun event member => by rw [silent event member]; decide)
      intro worker
      by_cases here : worker = index
      · subst here
        obtain ⟨pending, completed⟩ := exec_replay cfg process.factories worker
          process.nextService { process.workers worker with queue := rest } cmd
        rw [same] at pending completed
        obtain ⟨before, beforeEvents⟩ := replayed worker
        have taken : processed worker (events ++ .popped worker cmd :: result.events) =
            processed worker events ++ [cmd] := by
          rw [processed_append, ← List.singleton_append, processed_append, unpopped]
          simp [processed]
        have done : completions worker (events ++ .popped worker cmd :: result.events) =
            completions worker events ++ completions worker result.events := by
          rw [completions_append, ← List.singleton_append, completions_append]
          simp [completions]
        rw [taken, done, pendingAfter, opsOf_append, replay_append]
        simp only [before, pendingAfter] at pending completed beforeEvents
        simp [pending, completed, beforeEvents]
      · have apart : index ≠ worker := fun same => here same.symm
        have taken : processed worker (.popped index cmd :: result.events) = [] := by
          rw [← List.singleton_append, processed_append, unpopped]
          simp [processed, apart]
        have done : completions worker (.popped index cmd :: result.events) = [] := by
          refine List.filterMap_eq_nil_iff.mpr (fun event member => ?_)
          rcases List.mem_cons.mp member with rfl | later
          · rfl
          · cases event with
            | completed i ctrl outcome =>
              have inside := (exec_completes cfg process.factories index process.nextService
                { process.workers index with queue := rest } cmd i ctrl
                (.inl ⟨outcome, same ▸ later⟩)).1
              have other : i ≠ worker := by rw [inside]; exact apart
              simp [other]
            | _ => rfl
        rw [processed_append, completions_append, taken, done, List.append_nil, List.append_nil]
        simpa [Process.write, Function.update_of_ne here] using replayed worker
    | release | joinWorkers => exact replayed.silent_step (fun _ => rfl) (by simp [origin])
    | joinBroker =>
      refine replayed.silent_step (fun worker => ?_) (by simp [origin])
      simp only
      split <;> rfl

end Rpcz.PendingMap
