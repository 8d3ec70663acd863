import Rpcz.SocketUse

/-!
The sockets of the context when `~manager` comes to it. The reactor deletes the
sockets of the broker, every thread deletes its own frontend socket at its
exit, and `~manager` deletes that of its thread only.
-/

namespace Rpcz.ContextTeardown
open Automaton Message EventLog ReactorLoop BrokerThread Moves History SocketDeletion
  BrokerSockets SocketUse HeaderCodec
open ProcessModel hiding Action machine

/-- The value of `tss_fe_socket_` in one thread. -/
inductive Frontend where
  | absent
  | opened
  | deleted
deriving DecidableEq

/-- The data members of `manager`. -/
inductive Member where
  | context
  | tssFeSocket
  | frontendEndpoint
  | brokerThread
  | workerThreadGroup
  | terminated
  | nextEventId
  | factories
deriving DecidableEq

def declared : List Member :=
  [.context, .tssFeSocket, .frontendEndpoint, .brokerThread, .workerThreadGroup, .terminated,
    .nextEventId, .factories]

/-- A process with its threads' frontend sockets. `remaining` are the members
that have yet to be destroyed, the next one first. -/
structure Teardown where
  process : Process
  frontends : Thread → Frontend
  exited : Thread → Bool
  /-- The thread that runs `~manager`. -/
  destroyer : Option Nat
  remaining : List Member

def Teardown.new : Teardown :=
  { process := Process.new
    frontends := fun _ => .absent
    exited := fun _ => false
    destroyer := none
    remaining := declared.reverse }

inductive Action where
  | process (action : ProcessModel.Action)
  /-- The thread ends, and its thread specific values with it. -/
  | exit (thread : Thread)
  /-- `~manager` destroys the next member. -/
  | destroyMember
deriving DecidableEq

/-- A thread that has exited does nothing more, and `join_all` waits for the
exits of the workers. -/
def Teardown.allows (cfg : Config) (state : Teardown) : ProcessModel.Action → Bool
  | .thread (.worker index) _ => decide (index < cfg.workers) && !state.exited (.worker index)
  | .thread (.app index) _ => !state.exited (.app index)
  | .worker index => !state.exited (.worker index)
  | .release index => !state.exited (.app index)
  | .joinWorkers => (List.range cfg.workers).all (fun index => state.exited (.worker index))
  | _ => true

/-- Every command is written through `get_frontend_socket`, which opens the
socket of the thread at its first use. -/
def Teardown.openFrontend (state : Teardown) (after : Process) (thread : Thread) : Frontend :=
  if state.frontends thread = .absent ∧
      (state.process.pipes thread).length < (after.pipes thread).length then .opened
  else state.frontends thread

/-- The thread that releases the last pointer runs `~manager`. -/
def Teardown.destroyerAfter (state : Teardown) : ProcessModel.Action → Option Nat
  | .release index => some index
  | _ => state.destroyer

def Frontend.cleanup : Frontend → Frontend
  | .opened => .deleted
  | frontend => frontend

def Teardown.cleanup (state : Teardown) (thread : Thread) : Teardown :=
  { state with
    frontends := Function.update state.frontends thread (state.frontends thread).cleanup }

/-- A thread exits between two calls; a worker when its loop has ended, and the
thread inside `~manager` does not. -/
def Teardown.mayExit (cfg : Config) (state : Teardown) : Thread → Bool
  | .app index =>
    state.process.calls (.app index) = .idle && !decide (state.destroyer = some index)
  | .worker index =>
    state.process.calls (.worker index) = .idle && decide (index < cfg.workers) &&
      !(state.process.workers index).running

/-- The destructors of the members follow `join_threads`; that of
`tss_fe_socket_` deletes the value of its own thread. -/
def Teardown.destroyMember (state : Teardown) : Option Teardown :=
  if state.process.shutdown = .destroyed then
    match state.remaining with
    | [] | .context :: _ => none
    | .tssFeSocket :: rest =>
      state.destroyer.map fun index => { state.cleanup (.app index) with remaining := rest }
    | _ :: rest => some { state with remaining := rest }
  else none

def Teardown.step (cfg : Config) (state : Teardown) : Action → Option (Teardown × List Event)
  | .process action =>
    if state.allows cfg action then
      (state.process.step cfg action).map fun result =>
        ({ state with
            process := result.1
            frontends := state.openFrontend result.1
            destroyer := state.destroyerAfter action }, result.2)
    else none
  | .exit thread =>
    if state.mayExit cfg thread ∧ state.exited thread = false then
      some ({ state.cleanup thread with exited := Function.update state.exited thread true }, [])
    else none
  | .destroyMember => state.destroyMember.map (fun after => (after, []))

def machine (cfg : Config) : Machine Teardown Action Event := ⟨Teardown.new, Teardown.step cfg⟩

inductive Socket where
  | broker (id : Nat)
  | frontend (thread : Thread)

def Teardown.Opened (state : Teardown) : Socket → Prop
  | .broker id => id < state.process.broker.nextSocket
  | .frontend thread => state.frontends thread ≠ .absent

/-- `~reactor` deletes `sockets_` when the broker thread ends. -/
def Teardown.Deleted (state : Teardown) : Socket → Prop
  | .broker id =>
    (∃ pair ∈ state.process.broker.reactor.closed, pair.1 = id) ∨
      state.process.broker.phase = .exited ∧
        ∃ pair ∈ state.process.broker.reactor.sockets, pair.1 = id
  | .frontend thread => state.frontends thread = .deleted

/-- `~manager` has come to the destruction of `context_`. -/
def Teardown.AtContext (state : Teardown) : Prop := state.remaining = [.context]

def Teardown.AllDeleted (state : Teardown) : Prop :=
  ∀ socket, state.Opened socket → state.Deleted socket

/-- Every other thread of the application that used the manager has exited. -/
def Teardown.OthersExited (state : Teardown) : Prop :=
  ∀ index, state.frontends (.app index) ≠ .absent → state.destroyer ≠ some index →
    state.exited (.app index) = true

section Broker
variable {cfg : Config} {process : Process} {events : List Event}
  {allowed : Process → ProcessModel.Action → Prop}

def Accounted (own : Ownership) : Prop :=
  ∀ id < own.next, ∃ pair ∈ own.sockets ++ own.closed, pair.1 = id

theorem Accounted.add {own : Ownership} (accounted : Accounted own) (callback : SocketCallback)
    (id : Nat) (made : id < own.next + 1) :
    ∃ pair ∈ own.sockets ++ [(own.next, callback)] ++ own.closed, pair.1 = id := by
  rcases Nat.lt_succ_iff_lt_or_eq.mp made with before | new
  · obtain ⟨pair, listed, same⟩ := accounted id before
    refine ⟨pair, ?_, same⟩
    rcases List.mem_append.mp listed with held | gone
    · exact List.mem_append_left _ (List.mem_append_left _ held)
    · exact List.mem_append_right _ gone
  · refine ⟨(own.next, callback), ?_, new.symm⟩
    exact List.mem_append_left _ (List.mem_append_right _ (List.mem_singleton_self _))

theorem handleCommand_accounted {broker : Broker} (accounted : Accounted (ownership broker))
    (oracle : Oracle) (sender : Thread) (cmd : Command)
    (alive : (broker.handleCommand cfg oracle sender cmd).1.phase ≠ .faulted) :
    Accounted (ownership (broker.handleCommand cfg oracle sender cmd).1) := by
  cases cmd with
  | quit | runClosure | registerSvc => exact accounted
  | connect endpoint =>
    simp only [Broker.handleCommand, Broker.handleConnectCommand] at alive ⊢
    split at alive
    · next accepted =>
      rw [if_pos accepted]
      exact accounted.add (.dealer broker.dealerSockets.length)
    · exact absurd rfl alive
  | bind endpoint =>
    simp only [Broker.handleCommand, Broker.handleBindCommand] at alive ⊢
    split at alive
    · next accepted =>
      rw [if_pos accepted]
      exact accounted.add (.router broker.routerSockets.length)
    · exact absurd rfl alive
  | unbind endpoint =>
    simp only [Broker.handleCommand, Broker.handleUnbindCommand]
    split <;> exact accounted
  | request info ctrl data =>
    obtain ⟨closures, same⟩ := sendRequest_timers cfg broker oracle info ctrl data
    simp only [Broker.handleCommand, same]
    split <;> exact accounted
  | reply info data =>
    simp only [Broker.handleCommand, Broker.forwardTo]
    split <;> exact accounted

theorem loopTop_accounted {broker : Broker} (sound : Sound (ownership broker))
    (accounted : Accounted (ownership broker)) : Accounted (ownership broker.loopTop.1) := by
  rcases sound.loopTop_cases with ⟨same, -⟩ | ⟨same, -⟩ | ⟨-, rebuilt, removed, ran, spec, same⟩
  · rw [same]
    exact accounted
  · rw [same]
    exact accounted
  · rw [same]
    intro id made
    obtain ⟨pair, listed, same⟩ := accounted id made
    refine ⟨pair, ?_, same⟩
    change pair ∈ rebuilt.sockets ++ rebuilt.closed
    rw [spec.closed]
    rcases List.mem_append.mp listed with held | gone
    · rcases List.mem_append.mp (spec.sockets.mem_iff.mpr held) with kept | deleted
      · exact List.mem_append_left _ kept
      · exact List.mem_append_right _ (List.mem_append_right _ deleted)
    · exact List.mem_append_right _ (List.mem_append_left _ gone)

theorem accounted_of_run (run : Run (ProcessModel.machine cfg) allowed events process)
    (alive : process.broker.phase ≠ .faulted) : Accounted (ownership process.broker) := by
  refine Steps.invariant
    (fun _ process => process.broker.phase ≠ .faulted → Accounted (ownership process.broker))
    ?_ ?_ run alive
  · intro _ id made
    have first : id = 0 := Nat.lt_one_iff.mp made
    exact ⟨(0, .frontend), List.mem_singleton_self _, first.symm⟩
  · intro events process action emitted after earlier before _ fired alive
    cases step_move fired with
    | thread thread action after emitted running move =>
      rw [(threadMove_frame move).1] at alive ⊢
      exact before alive
    | loopTop phase performed =>
      have live : process.broker.phase ≠ .faulted := by simp [phase]
      exact loopTop_accounted (sound_of_run earlier live) (before live)
    | timers now phase performed => exact before (by simp [phase])
    | poll outcome phase performed =>
      rw [afterPoll_ownership]
      exact before (by simp [phase])
    | finished input i phase | quiet input i phase => exact before (by simp [phase])
    | outOfRange input i phase performed slot => exact absurd rfl alive
    | command i sender oracle cmd rest phase performed slot unread result same =>
      subst same
      have books : Accounted (ownership { process.broker with phase := .dispatch (i + 1) }) :=
        before (by simp [phase])
      exact handleCommand_accounted books oracle sender cmd alive
    | message i callback frames phase performed slot network nonempty result same =>
      subst same
      rw [receive_ownership]
      exact before (by simp [phase])
    | flush output rest live unperformed =>
      rcases perform_broker (process.setOutbox rest) output with same | same
      · rw [same]
        exact before live
      · exact absurd (by rw [same]) alive
    | worker | release | joinBroker | joinWorkers => exact before alive

theorem perform_frame (process : Process) (output : Output) :
    (process.perform output).1.shutdown = process.shutdown := by
  cases output with
  | push | reply => rfl
  | send info socket frames cause =>
    simp only [Process.perform]
    split <;> rfl

theorem shutdown_move {action : ProcessModel.Action} {after : Process} {emitted : List Event}
    (move : Move cfg process action after emitted) :
    after.shutdown = process.shutdown ∧ (∀ index, action ≠ .release index) ∨
      (∃ index, action = .release index) ∧ process.shutdown = .running ∧
        after.shutdown = .joiningBroker ∨
      action = .joinBroker ∧ process.shutdown = .joiningBroker ∧
        after.shutdown = .joiningWorkers ∨
      action = .joinWorkers ∧ process.shutdown = .joiningWorkers ∧ after.shutdown = .destroyed := by
  cases move with
  | thread author action after emitted running move =>
    exact .inl ⟨(threadMove_frame move).2.2.2.1, nofun⟩
  | flush output rest => exact .inl ⟨perform_frame _ output, nofun⟩
  | release index running => exact .inr (.inl ⟨⟨index, rfl⟩, running, rfl⟩)
  | joinBroker joining => exact .inr (.inr (.inl ⟨rfl, joining, rfl⟩))
  | joinWorkers joining => exact .inr (.inr (.inr ⟨rfl, joining, rfl⟩))
  | _ => exact .inl ⟨rfl, nofun⟩

theorem exited_of_run (run : Run (ProcessModel.machine cfg) allowed events process)
    (joined : process.shutdown = .joiningWorkers ∨ process.shutdown = .destroyed) :
    process.broker.phase = .exited ∧ process.broker.outbox = [] := by
  refine Steps.invariant (fun _ process =>
    process.shutdown = .joiningWorkers ∨ process.shutdown = .destroyed →
      process.broker.phase = .exited ∧ process.broker.outbox = []) ?_ ?_ run joined
  · intro joined
    rcases joined with joined | joined <;> cases joined
  · intro events process action emitted after _ before _ fired joined
    cases step_move fired with
    | thread thread action after emitted running move =>
      rw [(threadMove_frame move).2.2.2.1, running] at joined
      rcases joined with joined | joined <;> cases joined
    | loopTop phase | timers now phase | poll outcome phase | finished input i phase
    | quiet input i phase | outOfRange input i phase =>
      have gone := (before joined).1
      rw [phase] at gone
      cases gone
    | command i sender oracle cmd rest phase | message i callback frames phase =>
      have gone := (before joined).1
      rw [phase] at gone
      cases gone
    | flush output rest live unperformed =>
      rw [perform_frame (process.setOutbox rest) output] at joined
      have gone := (before joined).2
      rw [unperformed] at gone
      cases gone
    | worker => exact before joined
    | release thread running => rcases joined with joined | joined <;> cases joined
    | joinBroker joining exited performed => exact ⟨exited, performed⟩
    | joinWorkers joining => exact before (.inl joining)

def actor : ProcessModel.Action → Option Thread
  | .thread thread _ => some thread
  | .worker index => some (.worker index)
  | .release index => some (.app index)
  | _ => none

/-- Commands are written by the thread that steps; the application's threads
write while the manager is referenced. -/
theorem writes_actor {action : ProcessModel.Action} {after : Process} {emitted : List Event}
    (move : Move cfg process action after emitted) {thread : Thread}
    (wrote : (process.pipes thread).length < (after.pipes thread).length) :
    actor action = some thread ∧ (process.shutdown = .running ∨ ∃ index, thread = .worker index) := by
  have silent : ∀ author commands, thread ≠ author →
      ¬(process.pipes thread).length < ((process.write author commands).pipes thread).length := by
    intro author commands apart
    simp [Process.write, Function.update_of_ne apart]
  by_cases mine : actor action = some thread
  · refine ⟨mine, ?_⟩
    cases move with
    | thread author action after emitted running move => exact .inl running
    | worker index => exact .inr ⟨index, (Option.some.inj mine).symm⟩
    | release author running => exact .inl running
    | _ => cases mine
  · exfalso
    cases move with
    | thread author action after emitted running move =>
      have apart : thread ≠ author := fun same => mine (congrArg some same.symm)
      cases move with
      | requested | connect | bind | serverBind | unbind | add | registerService | reply
      | nextUnbind => exact silent author _ apart wrote
      | _ => exact Nat.lt_irrefl _ wrote
    | worker index =>
      exact silent (.worker index) _ (fun same => mine (congrArg some same.symm)) wrote
    | release author =>
      exact silent (.app author) _ (fun same => mine (congrArg some same.symm)) wrote
    | command i sender oracle cmd rest phase performed slot unread result same =>
      simp only [Function.update_apply] at wrote
      split at wrote
      · next same =>
        rw [same, unread, List.length_cons] at wrote
        omega
      · exact Nat.lt_irrefl _ wrote
    | flush output rest =>
      cases output with
      | push | reply => exact Nat.lt_irrefl _ wrote
      | send info socket frames cause =>
        simp only [Process.perform] at wrote
        split at wrote <;> exact Nat.lt_irrefl _ wrote
    | _ => exact Nat.lt_irrefl _ wrote

end Broker

section Runs
variable {cfg : Config} {state after : Teardown} {events emitted : List Event}
  {allowed : Teardown → Action → Prop}

theorem cleanup_opened (frontend : Frontend) : frontend.cleanup ≠ .opened := by
  cases frontend <;> decide

theorem cleanup_absent {frontend : Frontend} : frontend.cleanup = .absent ↔ frontend = .absent := by
  cases frontend <;> decide

structure Owned (cfg : Config) (state : Teardown) : Prop where
  /-- A thread that has exited left no socket behind. -/
  exited : ∀ thread, state.exited thread = true → state.frontends thread ≠ .opened
  deleted : ∀ thread, state.frontends thread = .deleted → state.exited thread = true ∨
    .tssFeSocket ∉ state.remaining ∧ ∃ index, state.destroyer = some index ∧ thread = .app index
  workers : ∀ index, state.frontends (.worker index) ≠ .absent → index < cfg.workers
  joined : state.process.shutdown = .destroyed →
    ∀ index < cfg.workers, state.exited (.worker index) = true
  destroyer : state.process.shutdown ≠ .running → ∃ index, state.destroyer = some index
  begun : state.remaining ≠ declared.reverse → state.process.shutdown = .destroyed
  suffix : state.remaining <:+ declared.reverse
  own : .tssFeSocket ∉ state.remaining → ∀ index, state.destroyer = some index →
    state.frontends (.app index) ≠ .opened

theorem opened_by {action : ProcessModel.Action} {process : Process}
    (move : Move cfg state.process action process emitted)
    (legal : state.allows cfg action = true) {thread : Thread}
    (changed : state.openFrontend process thread ≠ state.frontends thread) :
    state.openFrontend process thread = .opened ∧ state.exited thread = false ∧
      ((∃ index, thread = .app index) ∧ state.process.shutdown = .running ∨
        ∃ index, thread = .worker index ∧ index < cfg.workers) := by
  simp only [Teardown.openFrontend] at changed ⊢
  split at changed
  · next opens =>
    rw [if_pos opens]
    obtain ⟨acts, running⟩ := writes_actor move opens.2
    refine ⟨rfl, ?_⟩
    cases move with
    | thread author action after emitted live move =>
      cases acts
      cases thread with
      | app index =>
        simp only [Teardown.allows, Bool.not_eq_true'] at legal
        exact ⟨legal, .inl ⟨⟨index, rfl⟩, live⟩⟩
      | worker index =>
        simp only [Teardown.allows, Bool.and_eq_true, decide_eq_true_eq, Bool.not_eq_true']
          at legal
        exact ⟨legal.2, .inr ⟨index, rfl, legal.1⟩⟩
    | worker index cmd rest bound =>
      cases acts
      simp only [Teardown.allows, Bool.not_eq_true'] at legal
      exact ⟨legal, .inr ⟨index, rfl, bound⟩⟩
    | release index live =>
      cases acts
      simp only [Teardown.allows, Bool.not_eq_true'] at legal
      exact ⟨legal, .inl ⟨⟨index, rfl⟩, live⟩⟩
    | _ => cases acts
  · exact absurd rfl changed

theorem Owned.start : Owned cfg Teardown.new where
  exited thread gone := by cases gone
  deleted thread gone := by cases gone
  workers index used := absurd rfl used
  joined gone := by cases gone
  destroyer gone := absurd rfl gone
  begun begun := absurd rfl begun
  suffix := List.suffix_rfl
  own absent := absurd (by decide) absent

theorem Owned.running (owned : Owned cfg state) (running : state.process.shutdown = .running) :
    .tssFeSocket ∈ state.remaining := by
  by_cases whole : state.remaining = declared.reverse
  · rw [whole]
    decide
  · have gone := owned.begun whole
    rw [running] at gone
    cases gone

theorem Owned.process (owned : Owned cfg state) {action : ProcessModel.Action} {process : Process}
    (move : Move cfg state.process action process emitted)
    (legal : state.allows cfg action = true) :
    Owned cfg { state with
      process := process
      frontends := state.openFrontend process
      destroyer := state.destroyerAfter action } := by
  have same : ∀ thread, state.openFrontend process thread ≠ .opened →
      state.openFrontend process thread = state.frontends thread := by
    intro thread apart
    by_contra changed
    exact apart (opened_by move legal changed).1
  have keeps : state.process.shutdown ≠ .running →
      state.destroyerAfter action = state.destroyer := by
    intro stopped
    rcases shutdown_move move with ⟨-, other⟩ | ⟨-, running, -⟩ | ⟨rfl, -⟩ | ⟨rfl, -⟩
    · unfold Teardown.destroyerAfter
      split
      · exact absurd rfl (other _)
      · rfl
    · exact absurd running stopped
    · rfl
    · rfl
  have stopped : .tssFeSocket ∉ state.remaining → state.process.shutdown ≠ .running :=
    fun gone running => gone (owned.running running)
  refine
    { exited := ?_, deleted := ?_, workers := ?_, joined := ?_, destroyer := ?_, begun := ?_,
      suffix := owned.suffix, own := ?_ }
  · intro thread gone opened
    by_cases changed : state.openFrontend process thread = state.frontends thread
    · exact owned.exited thread gone (changed ▸ opened)
    · have live := (opened_by move legal changed).2.1
      rw [live] at gone
      cases gone
  · intro thread deleted
    change state.openFrontend process thread = .deleted at deleted
    have before := same thread (by rw [deleted]; decide)
    rw [deleted] at before
    rcases owned.deleted thread before.symm with gone | ⟨destroyed, index, runs, own⟩
    · exact .inl gone
    · exact .inr ⟨destroyed, index, (keeps (stopped destroyed)).trans runs, own⟩
  · intro index used
    by_cases changed : state.openFrontend process (.worker index) = state.frontends (.worker index)
    · exact owned.workers index (changed ▸ used)
    · rcases (opened_by move legal changed).2.2 with ⟨⟨_, other⟩, -⟩ | ⟨other, same, bound⟩
      · cases other
      · cases same
        exact bound
  · intro destroyed
    change process.shutdown = .destroyed at destroyed
    rcases shutdown_move move with ⟨kept, -⟩ | ⟨-, -, next⟩ | ⟨-, -, next⟩ | ⟨rfl, -, -⟩
    · exact owned.joined (kept ▸ destroyed)
    · rw [next] at destroyed
      cases destroyed
    · rw [next] at destroyed
      cases destroyed
    · simp only [Teardown.allows, List.all_eq_true, List.mem_range] at legal
      exact legal
  · intro released
    change process.shutdown ≠ .running at released
    rcases shutdown_move move with ⟨kept, -⟩ | ⟨⟨index, rfl⟩, -⟩ | ⟨rfl, joining, -⟩ |
      ⟨rfl, joining, -⟩
    · rw [kept] at released
      obtain ⟨index, runs⟩ := owned.destroyer released
      exact ⟨index, (keeps released).trans runs⟩
    · exact ⟨index, rfl⟩
    · exact owned.destroyer (by rw [joining]; decide)
    · exact owned.destroyer (by rw [joining]; decide)
  · intro begun
    change process.shutdown = .destroyed
    have destroyed := owned.begun begun
    rcases shutdown_move move with ⟨kept, -⟩ | ⟨-, before, -⟩ | ⟨-, before, -⟩ | ⟨-, before, -⟩
    · exact kept.trans destroyed
    all_goals
      rw [destroyed] at before
      cases before
  · intro gone index runs
    have apart := stopped gone
    have own := owned.own gone index ((keeps apart).symm.trans runs)
    change state.openFrontend process (.app index) ≠ .opened
    by_cases changed : state.openFrontend process (.app index) = state.frontends (.app index)
    · rw [changed]
      exact own
    · rcases (opened_by move legal changed).2.2 with ⟨-, running⟩ | ⟨other, same, -⟩
      · exact absurd running apart
      · cases same

theorem cleanup_frontends (state : Teardown) (thread other : Thread) :
    (state.cleanup thread).frontends other =
      if other = thread then (state.frontends thread).cleanup else state.frontends other := by
  exact Function.update_apply ..

theorem cleanup_used {thread other : Thread} :
    (state.cleanup thread).frontends other = .absent ↔ state.frontends other = .absent := by
  rw [cleanup_frontends]
  split
  · next same =>
    rw [same]
    exact cleanup_absent
  · rfl

theorem cleanup_closed {thread other : Thread} (closed : state.frontends other ≠ .opened) :
    (state.cleanup thread).frontends other ≠ .opened := by
  rw [cleanup_frontends]
  split
  · exact cleanup_opened _
  · exact closed

theorem Owned.exit (owned : Owned cfg state) (thread : Thread) :
    Owned cfg { state.cleanup thread with exited := Function.update state.exited thread true } where
  exited other gone := by
    by_cases same : other = thread
    · change (state.cleanup thread).frontends other ≠ .opened
      rw [cleanup_frontends, if_pos same]
      exact cleanup_opened _
    · simp only [Function.update_of_ne same] at gone
      exact cleanup_closed (owned.exited other gone)
  deleted other deleted := by
    by_cases same : other = thread
    · left
      rw [same]
      exact Function.update_self ..
    · change (state.cleanup thread).frontends other = .deleted at deleted
      rw [cleanup_frontends, if_neg same] at deleted
      simp only [Function.update_of_ne same]
      exact owned.deleted other deleted
  workers index used := owned.workers index (fun absent => used (cleanup_used.mpr absent))
  joined destroyed index bound := by
    simp only [Function.update_apply]
    split
    · rfl
    · exact owned.joined destroyed index bound
  destroyer := owned.destroyer
  begun := owned.begun
  suffix := owned.suffix
  own gone index runs := cleanup_closed (owned.own gone index runs)

/-- The destructor of a member; that of `tss_fe_socket_` deletes one value. -/
theorem destroyMember_cases (done : state.destroyMember = some after) :
    state.process.shutdown = .destroyed ∧ ∃ member, member ≠ .context ∧
      state.remaining = member :: after.remaining ∧
      (member ≠ .tssFeSocket ∧ after = { state with remaining := after.remaining } ∨
        member = .tssFeSocket ∧ ∃ index, state.destroyer = some index ∧
          after = { state.cleanup (.app index) with remaining := after.remaining }) := by
  simp only [Teardown.destroyMember] at done
  split at done
  · next destroyed =>
    refine ⟨destroyed, ?_⟩
    split at done
    · cases done
    · cases done
    · next rest shape =>
      obtain ⟨index, runs, rfl⟩ := Option.map_eq_some_iff.mp done
      exact ⟨.tssFeSocket, by decide, shape, .inr ⟨rfl, index, runs, rfl⟩⟩
    · next member rest context own shape =>
      cases done
      exact ⟨member, context, shape, .inl ⟨own, rfl⟩⟩
  · cases done

theorem Owned.destroy (owned : Owned cfg state) (done : state.destroyMember = some after) :
    Owned cfg after := by
  obtain ⟨destroyed, member, context, shape, kind⟩ := destroyMember_cases done
  have shorter : after.remaining <:+ declared.reverse := by
    have whole := owned.suffix
    rw [shape] at whole
    exact (List.suffix_cons member after.remaining).trans whole
  rcases kind with ⟨other, same⟩ | ⟨rfl, index, runs, same⟩
  · have before : .tssFeSocket ∉ after.remaining → .tssFeSocket ∉ state.remaining := by
      intro gone held
      rw [shape] at held
      rcases List.mem_cons.mp held with now | rest
      · exact other now.symm
      · exact gone rest
    rw [same]
    exact
      { owned with
        begun := fun _ => destroyed
        suffix := shorter
        deleted := fun thread deleted => by
          rcases owned.deleted thread deleted with gone | ⟨cleaned, own⟩
          · exact .inl gone
          · refine .inr ⟨fun held => cleaned ?_, own⟩
            rw [shape]
            exact List.mem_cons_of_mem _ held
        own := fun gone => owned.own (before gone) }
  · have cleaned : .tssFeSocket ∉ after.remaining := by
      have whole := owned.suffix
      rw [shape] at whole
      have distinct : (Member.tssFeSocket :: after.remaining).Nodup :=
        whole.sublist.nodup (by decide)
      exact (List.nodup_cons.mp distinct).1
    rw [same]
    exact
      { exited := fun thread gone => cleanup_closed (owned.exited thread gone)
        deleted := fun thread deleted => by
          change (state.cleanup (.app index)).frontends thread = .deleted at deleted
          rw [cleanup_frontends] at deleted
          split at deleted
          · next own => exact .inr ⟨cleaned, index, runs, own⟩
          · rcases owned.deleted thread deleted with gone | ⟨gone, -⟩
            · exact .inl gone
            · rw [shape] at gone
              exact absurd List.mem_cons_self gone
        workers := fun other used => owned.workers other (fun absent => used (by
          change (state.cleanup (.app index)).frontends (.worker other) = .absent
          exact cleanup_used.mpr absent))
        joined := owned.joined
        destroyer := owned.destroyer
        begun := fun _ => destroyed
        suffix := shorter
        own := fun _ other runsOther => by
          have one : index = other := Option.some.inj (runs.symm.trans runsOther)
          change (state.cleanup (.app index)).frontends (.app other) ≠ .opened
          rw [cleanup_frontends, if_pos (by rw [one])]
          exact cleanup_opened _ }

theorem process_of_run (run : Run (machine cfg) allowed events state) :
    Owned cfg state ∧
      ∃ history, Run (ProcessModel.machine cfg) anyStep history state.process := by
  refine Steps.invariant (fun _ state => Owned cfg state ∧
    ∃ history, Run (ProcessModel.machine cfg) anyStep history state.process) ?_ ?_ run
  · exact ⟨.start, [], .refl⟩
  · rintro events state action emitted after - ⟨owned, history, ran⟩ - fired
    cases action with
    | process action =>
      simp only [machine, Teardown.step] at fired
      split at fired
      · next legal =>
        obtain ⟨result, moved, same⟩ := Option.map_eq_some_iff.mp fired
        cases same
        exact ⟨owned.process (step_move moved) legal, _, ran.next trivial moved⟩
      · cases fired
    | exit thread =>
      simp only [machine, Teardown.step] at fired
      split at fired <;> cases fired
      exact ⟨owned.exit thread, history, ran⟩
    | destroyMember =>
      obtain ⟨result, done, same⟩ := Option.map_eq_some_iff.mp fired
      cases same
      refine ⟨owned.destroy done, history, ?_⟩
      obtain ⟨-, member, -, -, kind⟩ := destroyMember_cases done
      rcases kind with ⟨-, same⟩ | ⟨-, index, -, same⟩ <;> rw [same] <;> exact ran

/-- The sockets of the broker and of its workers are gone, and so is that of the
thread inside `~manager`; the others go with their threads. -/
theorem allDeleted_iff (run : Run (machine cfg) allowed events state) (at_ : state.AtContext) :
    state.AllDeleted ↔ state.OthersExited := by
  obtain ⟨owned, history, ran⟩ := process_of_run run
  have destroyed : state.process.shutdown = .destroyed := owned.begun (by rw [at_]; decide)
  have cleaned : .tssFeSocket ∉ state.remaining := by rw [at_]; decide
  have exited := (exited_of_run ran (.inr destroyed)).1
  constructor
  · intro gone index used other
    rcases owned.deleted (.app index) (gone (.frontend (.app index)) used) with left | ⟨-, own⟩
    · exact left
    · obtain ⟨destroyer, runs, same⟩ := own
      cases same
      exact absurd runs other
  · intro others socket opened
    have closes : ∀ thread, state.frontends thread ≠ .absent → state.frontends thread ≠ .opened →
        state.frontends thread = .deleted := by
      intro thread used closed
      cases is : state.frontends thread with
      | absent => exact absurd is used
      | opened => exact absurd is closed
      | deleted => rfl
    cases socket with
    | broker id =>
      have accounted := accounted_of_run ran (by rw [exited]; decide)
      obtain ⟨pair, listed, same⟩ := accounted id opened
      rcases List.mem_append.mp listed with held | gone
      · exact .inr ⟨exited, pair, held, same⟩
      · exact .inl ⟨pair, gone, same⟩
    | frontend thread =>
      apply closes thread opened
      cases thread with
      | worker index =>
        exact owned.exited _ (owned.joined destroyed index (owned.workers index opened))
      | app index =>
        by_cases own : state.destroyer = some index
        · exact owned.own cleaned index own
        · exact owned.exited _ (others index opened own)

/-- `~manager` destroys `tss_fe_socket_` when the other threads have exited. -/
def Orderly (state : Teardown) (action : Action) : Prop :=
  action = .destroyMember → state.remaining = [.tssFeSocket, .context] → state.OthersExited

theorem others_of_run (run : Run (machine cfg) Orderly events state) (at_ : state.AtContext) :
    state.OthersExited := by
  refine Steps.invariant (fun _ state => state.AtContext → state.OthersExited) ?_ ?_ run at_
  · intro at_
    cases at_
  · intro events state action emitted after earlier before orderly fired at_
    obtain ⟨owned, history, ran⟩ := process_of_run earlier
    cases action with
    | process action =>
      simp only [machine, Teardown.step] at fired
      split at fired
      · next legal =>
        obtain ⟨result, moved, same⟩ := Option.map_eq_some_iff.mp fired
        cases same
        have context : state.remaining = [.context] := at_
        have destroyed := owned.begun (by rw [context]; decide)
        have others := before context
        intro index used other
        apply others index
        · intro absent
          by_cases changed : state.openFrontend result.1 (.app index) = state.frontends (.app index)
          · exact used (changed.trans absent)
          · rcases (opened_by (step_move moved) legal changed).2.2 with ⟨-, running⟩ | ⟨_, same, -⟩
            · rw [destroyed] at running
              cases running
            · cases same
        · intro runs
          apply other
          change state.destroyerAfter action = some index
          rcases shutdown_move (step_move moved) with ⟨-, apart⟩ | ⟨-, running, -⟩ | ⟨rfl, -⟩ |
            ⟨rfl, -⟩
          · unfold Teardown.destroyerAfter
            split
            · exact absurd rfl (apart _)
            · exact runs
          · rw [destroyed] at running
            cases running
          · exact runs
          · exact runs
      · cases fired
    | exit thread =>
      simp only [machine, Teardown.step] at fired
      split at fired <;> cases fired
      intro index used other
      have gone := before at_ index (fun absent => used (cleanup_used.mpr absent)) other
      simp only [Function.update_apply]
      split
      · rfl
      · exact gone
    | destroyMember =>
      obtain ⟨result, done, same⟩ := Option.map_eq_some_iff.mp fired
      cases same
      obtain ⟨-, member, -, shape, kind⟩ := destroyMember_cases done
      have context : after.remaining = [.context] := at_
      rw [context] at shape
      have last : member = .tssFeSocket := by
        have whole := owned.suffix
        rw [shape] at whole
        have ends : [member, .context] = declared.reverse.drop 6 := by
          have drop := List.suffix_iff_eq_drop.mp whole
          simpa [declared] using drop
        cases ends
        rfl
      have others := orderly rfl (by rw [shape, last])
      rcases kind with ⟨apart, -⟩ | ⟨-, index, -, same⟩
      · exact absurd last apart
      · rw [same]
        intro other used apart
        refine others other (fun absent => used ?_) apart
        change (state.cleanup (.app index)).frontends (.app other) = .absent
        exact cleanup_used.mpr absent

end Runs

abbrev Among (threads : List Thread) (_ : Teardown) (action : Action) : Prop :=
  (match action with
    | .process action => actor action
    | _ => none).all (fun thread => decide (thread ∈ threads)) = true

theorem among_of_run {cfg : Config} {threads : List Thread} {events : List Event}
    {state : Teardown} (run : Run (machine cfg) (Among threads) events state) (thread : Thread)
    (used : state.frontends thread ≠ .absent) : thread ∈ threads := by
  refine Steps.invariant (fun _ state => ∀ thread, state.frontends thread ≠ .absent →
    thread ∈ threads) ?_ ?_ run thread used
  · intro thread used
    exact absurd rfl used
  · intro events state action emitted after earlier before among fired thread used
    cases action with
    | process action =>
      simp only [machine, Teardown.step] at fired
      split at fired
      · obtain ⟨result, moved, same⟩ := Option.map_eq_some_iff.mp fired
        cases same
        by_cases changed : state.openFrontend result.1 thread = state.frontends thread
        · exact before thread (changed ▸ used)
        · simp only [Teardown.openFrontend] at changed
          split at changed
          · next opens =>
            simp only [Among, (writes_actor (step_move moved) opens.2).1, Option.all_some,
              decide_eq_true_eq] at among
            exact among
          · exact absurd rfl changed
      · cases fired
    | exit other =>
      simp only [machine, Teardown.step] at fired
      split at fired <;> cases fired
      exact before thread (fun absent => used (cleanup_used.mpr absent))
    | destroyMember =>
      obtain ⟨result, done, same⟩ := Option.map_eq_some_iff.mp fired
      cases same
      obtain ⟨-, member, -, -, kind⟩ := destroyMember_cases done
      apply before thread
      rcases kind with ⟨-, same⟩ | ⟨-, index, -, same⟩
      · rw [same] at used
        exact used
      · rw [same] at used
        exact fun absent => used (cleanup_used.mpr absent)

/-- Every socket is deleted in time if the other threads exit before, and only
then. -/
theorem sockets_deleted (cfg : Config) :
    (∀ events state, Run (machine cfg) Orderly events state → state.AtContext →
      state.AllDeleted) ∧
    ∀ events state, Run (machine cfg) anyStep events state → state.AtContext →
      (state.AllDeleted ↔ state.OthersExited) := by
  constructor
  · intro events state run at_
    exact (allDeleted_iff run at_).mpr (others_of_run run at_)
  · intro events state run at_
    exact allDeleted_iff run at_

def connected : List Action :=
  (([.thread (.app 0) (.connect [1])] ++ commandTurn 1 ++
    [.thread (.app 0) .receive] : List ProcessModel.Action)).map .process

/-- Thread 1 releases the last pointer and comes to the destruction of the context. -/
def released : List Action :=
  ([.release 1, .loopTop, .timers 0, .poll (.ready [true, false]),
    .dispatch (.frontend (.app 1) ⟨true, 0, 0⟩), .dispatch .nothing, .dispatch .nothing, .loopTop,
    .joinBroker, .worker 0] : List ProcessModel.Action).map .process ++
    [.exit (.worker 0), .process .joinWorkers] ++ List.replicate 7 .destroyMember

/-- The frontend socket of a thread that still runs outlives the manager. -/
theorem frontend_outlives : ¬ ∀ cfg events state, Run (machine cfg) anyStep events state →
    state.AtContext → state.AllDeleted := by
  intro claim
  have ran := run_reached (machine plain) (connected ++ released)
  have at_ : (reached (machine plain) (connected ++ released)).1.remaining = [.context] := by
    decide +kernel
  have left : (reached (machine plain) (connected ++ released)).1.frontends (.app 0) = .opened := by
    decide +kernel
  have used : (reached (machine plain) (connected ++ released)).1.frontends (.app 0) ≠ .absent := by
    rw [left]
    decide
  have gone := claim _ _ _ ran at_ (.frontend (.app 0)) used
  change (reached (machine plain) (connected ++ released)).1.frontends (.app 0) = .deleted at gone
  rw [left] at gone
  cases gone

/-- If it exits first, nothing is left of it. -/
theorem sockets_deleted_exited :
    (reached ((machine plain).guarded (Among [.app 0, .app 1, .worker 0]))
      (connected ++ .exit (.app 0) :: released)).1.AllDeleted := by
  have ran := Steps.of_guarded (run_reached
    ((machine plain).guarded (Among [.app 0, .app 1, .worker 0]))
    (connected ++ .exit (.app 0) :: released))
  refine ((sockets_deleted plain).2 _ _ ran.any ?_).mpr ?_
  · change _ = [Member.context]
    decide +kernel
  · intro index used other
    have known := among_of_run ran (.app index) used
    simp only [List.mem_cons, Thread.app.injEq, reduceCtorEq, List.not_mem_nil, or_false] at known
    rcases known with rfl | rfl
    · decide +kernel
    · exact absurd (by decide +kernel) other

end Rpcz.ContextTeardown
