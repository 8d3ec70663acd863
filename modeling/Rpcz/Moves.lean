import Rpcz.ProcessModel

/-!
What a step of the process can do, case by case. Every invariant of the process
is proved against these cases and never unfolds the step function.
-/

namespace Rpcz.Moves
open Automaton Message EventLog ReactorLoop RequestHandlers WorkerThread BrokerThread ProcessModel

inductive ThreadMove (cfg : Config) (process : Process) (thread : Thread) :
    ThreadAction → Process → List Event → Prop where
  | request (info : ConnectionInfo) (service method payload : Bytes) (handler : Option Nat)
      (timeoutMs : Int64) (idle : process.calls thread = .idle) :
      ThreadMove cfg process thread (.request info service method payload handler timeoutMs)
        { process.setCall thread (.requesting info
            ⟨process.requests, process.nextEventId, handler, timeoutMs⟩
            (requestFrames cfg.proto process.nextEventId service method payload)) with
          nextEventId := process.nextEventId + 1, requests := process.requests + 1 }
        [.fetched thread info ⟨process.requests, process.nextEventId, handler, timeoutMs⟩]
  | requested (info : ConnectionInfo) (ctrl : Controller) (data : List Frame)
      (inside : process.calls thread = .requesting info ctrl data) :
      ThreadMove cfg process thread (.sendRequest true)
        ((process.write thread [.request info ctrl data]).setCall thread .idle)
        [.requested thread info ctrl]
  | thrown (info : ConnectionInfo) (ctrl : Controller) (data : List Frame)
      (inside : process.calls thread = .requesting info ctrl data) :
      ThreadMove cfg process thread (.sendRequest false) (process.setCall thread .idle) []
  | connect (endpoint : Bytes) (idle : process.calls thread = .idle) :
      ThreadMove cfg process thread (.connect endpoint)
        ((process.write thread [.connect endpoint]).setCall thread .connecting) []
  | bind (endpoint : Bytes) (factories : Nat) (idle : process.calls thread = .idle) :
      ThreadMove cfg process thread (.bind endpoint factories)
        (process.startBind thread endpoint (.user factories)).1
        (process.startBind thread endpoint (.user factories)).2
  | serverBind (server : Nat) (endpoint : Bytes) (endpoints : List Bytes)
      (idle : process.calls thread = .idle) (alive : process.servers server = .alive endpoints)
      (unbound : endpoint ∉ endpoints) :
      ThreadMove cfg process thread (.serverBind server endpoint)
        ({ process with
          servers := Function.update process.servers server
            (.alive (endpoints ++ [endpoint])) }.startBind thread endpoint (.server server)).1
        ({ process with
          servers := Function.update process.servers server
            (.alive (endpoints ++ [endpoint])) }.startBind thread endpoint (.server server)).2
  | alreadyBound (server : Nat) (endpoint : Bytes) (idle : process.calls thread = .idle) :
      ThreadMove cfg process thread (.serverBind server endpoint) process []
  | unbind (endpoint : Bytes) (idle : process.calls thread = .idle) :
      ThreadMove cfg process thread (.unbind endpoint)
        ((process.write thread [.unbind endpoint]).setCall thread (.unbinding none)) []
  | add (closure : Nat) (idle : process.calls thread = .idle) :
      ThreadMove cfg process thread (.add closure) (process.write thread [.runClosure closure])
        [.added thread closure]
  | registerService (info : ConnectionInfo) (name : Bytes) (svc : ServiceObject)
      (idle : process.calls thread = .idle) :
      ThreadMove cfg process thread (.registerService info name svc)
        (process.write thread [.registerSvc info name svc]) []
  | reply (action : ThreadAction) (info : ConnectionInfo) (data : List Frame)
      (idle : process.calls thread = .idle)
      (made : (∃ eventId payload, action = .reply info eventId payload ∧
          data = replyFrames cfg.proto eventId payload) ∨
        ∃ eventId code text, action = .replyError info eventId code text ∧
          data = replyErrorFrames cfg.proto eventId code text) :
      ThreadMove cfg process thread action (process.write thread [.reply info data]) []
  | newServer (server : Nat) (idle : process.calls thread = .idle)
      (absent : process.servers server = .absent) :
      ThreadMove cfg process thread (.newServer server)
        { process with servers := Function.update process.servers server (.alive []) } []
  | registerFactory (factories : MapId) (name : Bytes) (factory : Factory)
      (idle : process.calls thread = .idle) :
      ThreadMove cfg process thread (.registerFactory factories name factory)
        { process with
          factoryMaps := Function.update process.factoryMaps factories
            (insertFactory (process.factoryMaps factories) name factory) } []
  | destroyServer (server : Nat) (endpoints : List Bytes) (idle : process.calls thread = .idle)
      (alive : process.servers server = .alive endpoints) :
      ThreadMove cfg process thread (.destroyServer server)
        (process.setCall thread (.destroying server endpoints)) []
  | insertFactories (routerIndex : Nat) (factories : MapId)
      (inside : process.calls thread = .inserting routerIndex factories) :
      ThreadMove cfg process thread .insertFactories
        { process.setCall thread .idle with
          routerFactories := Function.update process.routerFactories routerIndex (some factories) }
        [.factoriesInserted thread routerIndex]
  | nextUnbind (server : Nat) (endpoint : Bytes) (remaining : List Bytes)
      (inside : process.calls thread = .destroying server (endpoint :: remaining)) :
      ThreadMove cfg process thread .nextUnbind
        ((process.write thread [.unbind endpoint]).setCall thread
          (.unbinding (some (server, remaining)))) []
  | serverDestroyed (server : Nat) (inside : process.calls thread = .destroying server []) :
      ThreadMove cfg process thread .nextUnbind
        { process.setCall thread .idle with
          servers := Function.update process.servers server .destroyed }
        [.serverDestroyed server]
  | connected (index : Nat) (rest : List Reply) (inside : process.calls thread = .connecting)
      (answer : process.replies thread = .socketIndex index :: rest) :
      ThreadMove cfg process thread .receive
        ({ process with replies := Function.update process.replies thread rest }.setCall thread .idle)
        [.received thread (.socketIndex index)]
  | bound (factories : MapId) (index : Nat) (rest : List Reply)
      (inside : process.calls thread = .binding factories)
      (answer : process.replies thread = .socketIndex index :: rest) :
      ThreadMove cfg process thread .receive
        ({ process with replies := Function.update process.replies thread rest }.setCall thread
          (.inserting index factories)) [.received thread (.socketIndex index)]
  | unbound (rest : List Reply) (inside : process.calls thread = .unbinding none)
      (answer : process.replies thread = .unbound :: rest) :
      ThreadMove cfg process thread .receive
        ({ process with replies := Function.update process.replies thread rest }.setCall thread .idle)
        [.received thread .unbound]
  | unboundNext (server : Nat) (remaining : List Bytes) (rest : List Reply)
      (inside : process.calls thread = .unbinding (some (server, remaining)))
      (answer : process.replies thread = .unbound :: rest) :
      ThreadMove cfg process thread .receive
        ({ process with replies := Function.update process.replies thread rest }.setCall thread
          (.destroying server remaining)) [.received thread .unbound]

inductive Move (cfg : Config) (process : Process) : Action → Process → List Event → Prop where
  | thread (thread : Thread) (action : ThreadAction) (after : Process) (events : List Event)
      (running : process.shutdown = .running)
      (move : ThreadMove cfg process thread action after events) :
      Move cfg process (.thread thread action) after events
  | loopTop (phase : process.broker.phase = .top) (performed : process.broker.outbox = []) :
      Move cfg process .loopTop { process with broker := process.broker.loopTop.1 }
        (process.broker.loopTop.2 ++ queuedEvents process.broker.loopTop.1.outbox)
  | timers (now : UInt64) (phase : process.broker.phase = .timers)
      (performed : process.broker.outbox = []) :
      Move cfg process (.timers now) { process with broker := (process.broker.runTimers cfg now).1 }
        ((process.broker.runTimers cfg now).2 ++
          queuedEvents (process.broker.runTimers cfg now).1.outbox)
  | poll (outcome : PollOutcome) (phase : process.broker.phase = .poll)
      (performed : process.broker.outbox = []) :
      Move cfg process (.poll outcome) { process with broker := (process.broker.afterPoll outcome).1 }
        ((process.broker.afterPoll outcome).2 ++
          queuedEvents (process.broker.afterPoll outcome).1.outbox)
  | finished (input : Input) (i : Nat) (phase : process.broker.phase = .dispatch i)
      (performed : process.broker.outbox = []) (slot : process.broker.reactor.slot i = .finished) :
      Move cfg process (.dispatch input)
        { process with broker := { process.broker with phase := .top } } []
  | quiet (input : Input) (i : Nat) (phase : process.broker.phase = .dispatch i)
      (performed : process.broker.outbox = []) (slot : process.broker.reactor.slot i = .quiet) :
      Move cfg process (.dispatch input)
        { process with broker := { process.broker with phase := .dispatch (i + 1) } } []
  | outOfRange (input : Input) (i : Nat) (phase : process.broker.phase = .dispatch i)
      (performed : process.broker.outbox = [])
      (slot : process.broker.reactor.slot i = .outOfRange) :
      Move cfg process (.dispatch input)
        { process with broker := { process.broker with phase := .faulted } } [.faulted .outOfRange]
  | command (i : Nat) (sender : Thread) (oracle : Oracle) (cmd : Command) (rest : List Command)
      (phase : process.broker.phase = .dispatch i) (performed : process.broker.outbox = [])
      (slot : process.broker.reactor.slot i = .ready .frontend)
      (unread : process.pipes sender = cmd :: rest) (result : Broker × List Event)
      (same : { process.broker with phase := .dispatch (i + 1) }.handleCommand cfg oracle sender cmd
        = result) :
      Move cfg process (.dispatch (.frontend sender oracle))
        { process with pipes := Function.update process.pipes sender rest, broker := result.1 }
        (.handled sender cmd :: (result.2 ++ queuedEvents result.1.outbox))
  | message (i : Nat) (callback : SocketCallback) (frames : List Frame)
      (phase : process.broker.phase = .dispatch i) (performed : process.broker.outbox = [])
      (slot : process.broker.reactor.slot i = .ready callback) (network : callback ≠ .frontend)
      (nonempty : frames ≠ []) (result : Broker × List Event)
      (same : { process.broker with phase := .dispatch (i + 1) }.receive cfg callback frames
        = result) :
      Move cfg process (.dispatch (.message frames)) { process with broker := result.1 }
        (result.2 ++ queuedEvents result.1.outbox)
  | flush (output : Output) (rest : List Output) (live : process.broker.phase ≠ .faulted)
      (unperformed : process.broker.outbox = output :: rest) :
      Move cfg process .flush
        ((process.setOutbox rest).perform output).1 ((process.setOutbox rest).perform output).2
  | worker (index : Nat) (cmd : WorkerCmd) (rest : List WorkerCmd) (legal : index < cfg.workers)
      (running : (process.workers index).running) (idle : process.calls (.worker index) = .idle)
      (unread : (process.workers index).queue = cmd :: rest) (result : Result)
      (same : { process.workers index with queue := rest }.exec cfg process.factories index
        process.nextService cmd = result) :
      Move cfg process (.worker index)
        { process.write (.worker index) result.writes with
          workers := Function.update process.workers index result.worker
          nextService := result.fresh }
        (.popped index cmd :: result.events)
  | release (thread : Nat) (running : process.shutdown = .running)
      (idle : process.calls (.app thread) = .idle) :
      Move cfg process (.release thread)
        { process.write (.app thread) [.quit] with shutdown := .joiningBroker }
        [.released (.app thread)]
  | joinBroker (joining : process.shutdown = .joiningBroker)
      (exited : process.broker.phase = .exited) (performed : process.broker.outbox = []) :
      Move cfg process .joinBroker
        { process with
          shutdown := .joiningWorkers
          workers := fun index =>
            if index < cfg.workers then
              { process.workers index with queue := (process.workers index).queue ++ [.quitWorker] }
            else process.workers index }
        ((List.range cfg.workers).map (fun index => .queued index .quitWorker))
  | joinWorkers (joining : process.shutdown = .joiningWorkers)
      (stopped : ∀ index < cfg.workers, (process.workers index).running = false) :
      Move cfg process .joinWorkers { process with shutdown := .destroyed } [.destroyed]

variable {cfg : Config} {process after : Process} {events : List Event}

theorem beginCall_move {thread : Thread} {action : ThreadAction}
    (idle : process.calls thread = .idle)
    (fired : process.beginCall cfg thread action = some (after, events)) :
    ThreadMove cfg process thread action after events := by
  cases action with
  | request info service method payload handler timeoutMs =>
    simp only [Process.beginCall, Option.some.injEq, Prod.mk.injEq] at fired
    obtain ⟨rfl, rfl⟩ := fired
    exact .request info service method payload handler timeoutMs idle
  | connect endpoint =>
    simp only [Process.beginCall, Option.some.injEq, Prod.mk.injEq] at fired
    obtain ⟨rfl, rfl⟩ := fired
    exact .connect endpoint idle
  | bind endpoint factories =>
    simp only [Process.beginCall, Option.some.injEq] at fired
    have first := congrArg Prod.fst fired
    have second := congrArg Prod.snd fired
    simp only at first second
    subst first second
    exact .bind endpoint factories idle
  | unbind endpoint =>
    simp only [Process.beginCall, Option.some.injEq, Prod.mk.injEq] at fired
    obtain ⟨rfl, rfl⟩ := fired
    exact .unbind endpoint idle
  | add closure =>
    simp only [Process.beginCall, Option.some.injEq, Prod.mk.injEq] at fired
    obtain ⟨rfl, rfl⟩ := fired
    exact .add closure idle
  | registerService info name svc =>
    simp only [Process.beginCall, Option.some.injEq, Prod.mk.injEq] at fired
    obtain ⟨rfl, rfl⟩ := fired
    exact .registerService info name svc idle
  | reply info eventId payload =>
    simp only [Process.beginCall, Option.some.injEq, Prod.mk.injEq] at fired
    obtain ⟨rfl, rfl⟩ := fired
    exact .reply _ info _ idle (.inl ⟨eventId, payload, rfl, rfl⟩)
  | replyError info eventId code text =>
    simp only [Process.beginCall, Option.some.injEq, Prod.mk.injEq] at fired
    obtain ⟨rfl, rfl⟩ := fired
    exact .reply _ info _ idle (.inr ⟨eventId, code, text, rfl, rfl⟩)
  | newServer server =>
    simp only [Process.beginCall] at fired
    split at fired
    · next absent =>
      simp only [Option.some.injEq, Prod.mk.injEq] at fired
      obtain ⟨rfl, rfl⟩ := fired
      exact .newServer server idle absent
    · cases fired
  | registerFactory factories name factory =>
    simp only [Process.beginCall, Option.some.injEq, Prod.mk.injEq] at fired
    obtain ⟨rfl, rfl⟩ := fired
    exact .registerFactory factories name factory idle
  | serverBind server endpoint =>
    simp only [Process.beginCall] at fired
    split at fired
    · next endpoints alive =>
      split at fired
      · simp only [Option.some.injEq, Prod.mk.injEq] at fired
        obtain ⟨rfl, rfl⟩ := fired
        exact .alreadyBound server endpoint idle
      · next unbound =>
        simp only [Option.some.injEq] at fired
        have first := congrArg Prod.fst fired
        have second := congrArg Prod.snd fired
        simp only at first second
        subst first second
        exact .serverBind server endpoint endpoints idle alive unbound
    · cases fired
  | destroyServer server =>
    simp only [Process.beginCall] at fired
    split at fired
    · next endpoints alive =>
      simp only [Option.some.injEq, Prod.mk.injEq] at fired
      obtain ⟨rfl, rfl⟩ := fired
      exact .destroyServer server endpoints idle alive
    · cases fired
  | sendRequest | receive | insertFactories | nextUnbind => simp [Process.beginCall] at fired

theorem acceptReply_move {thread : Thread} {body : Reply} {rest : List Reply}
    (answer : process.replies thread = body :: rest)
    (fired : { process with
        replies := Function.update process.replies thread rest }.acceptReply thread
          (process.calls thread) body = some after) :
    ThreadMove cfg process thread .receive after [.received thread body] := by
  unfold Process.acceptReply at fired
  split at fired
  · next inside => cases fired; exact .connected _ rest inside answer
  · next inside => cases fired; exact .bound _ _ rest inside answer
  · next inside => cases fired; exact .unbound rest inside answer
  · next inside => cases fired; exact .unboundNext _ _ rest inside answer
  · cases fired

theorem continueCall_move {thread : Thread} {action : ThreadAction}
    (fired : process.continueCall thread (process.calls thread) action = some (after, events)) :
    ThreadMove cfg process thread action after events := by
  unfold Process.continueCall at fired
  split at fired
  · next info ctrl data serialized inside =>
    split at fired
    · next sent =>
      simp only [Option.some.injEq, Prod.mk.injEq] at fired
      obtain ⟨rfl, rfl⟩ := fired
      subst sent
      exact .requested info ctrl data inside
    · next failed =>
      simp only [Option.some.injEq, Prod.mk.injEq] at fired
      obtain ⟨rfl, rfl⟩ := fired
      rw [Bool.not_eq_true] at failed
      subst failed
      exact .thrown info ctrl data inside
  · next routerIndex factories inside =>
    simp only [Option.some.injEq, Prod.mk.injEq] at fired
    obtain ⟨rfl, rfl⟩ := fired
    exact .insertFactories routerIndex factories inside
  · next server endpoint remaining inside =>
    simp only [Option.some.injEq, Prod.mk.injEq] at fired
    obtain ⟨rfl, rfl⟩ := fired
    exact .nextUnbind server endpoint remaining inside
  · next server inside =>
    simp only [Option.some.injEq, Prod.mk.injEq] at fired
    obtain ⟨rfl, rfl⟩ := fired
    exact .serverDestroyed server inside
  · split at fired
    · cases fired
    · next body rest answer =>
      simp only [Option.map_eq_some_iff, Prod.mk.injEq] at fired
      obtain ⟨next, accepted, rfl, rfl⟩ := fired
      exact acceptReply_move answer accepted
  · cases fired

theorem threadStep_move {thread : Thread} {action : ThreadAction}
    (fired : process.threadStep cfg thread action = some (after, events)) :
    process.shutdown = .running ∧ ThreadMove cfg process thread action after events := by
  unfold Process.threadStep at fired
  split at fired
  · next running =>
    refine ⟨running, ?_⟩
    split at fired
    · next idle => exact beginCall_move idle fired
    · exact continueCall_move fired
  · cases fired

theorem dispatchAt_move {i : Nat} {input : Input} (phase : process.broker.phase = .dispatch i)
    (performed : process.broker.outbox = [])
    (fired : process.dispatchAt cfg i input = some (after, events)) :
    Move cfg process (.dispatch input) after events := by
  unfold Process.dispatchAt at fired
  simp only at fired
  split at fired
  · next input _ _ slot =>
    simp only [Process.brokerStep, performed, queuedEvents, List.filterMap_nil, List.append_nil,
      Option.some.injEq, Prod.mk.injEq] at fired
    obtain ⟨rfl, rfl⟩ := fired
    exact performed ▸ Move.finished input i phase performed slot
  · next input _ _ slot =>
    simp only [Process.brokerStep, performed, queuedEvents, List.filterMap_nil, List.append_nil,
      Option.some.injEq, Prod.mk.injEq] at fired
    obtain ⟨rfl, rfl⟩ := fired
    exact performed ▸ Move.quiet input i phase performed slot
  · next input _ _ slot =>
    simp only [Process.brokerStep, Broker.fault, performed, queuedEvents, List.filterMap_nil,
      List.append_nil, Option.some.injEq, Prod.mk.injEq] at fired
    obtain ⟨rfl, rfl⟩ := fired
    exact performed ▸ Move.outOfRange input i phase performed slot
  · next sender oracle slot =>
    split at fired
    · cases fired
    · next cmd rest unread =>
      simp only [Option.some.injEq, Prod.mk.injEq] at fired
      obtain ⟨rfl, rfl⟩ := fired
      exact .command i sender oracle cmd rest phase performed slot unread _ rfl
  · next index frame frames slot =>
    simp only [Process.brokerStep, Option.some.injEq, Prod.mk.injEq] at fired
    obtain ⟨rfl, rfl⟩ := fired
    exact .message i _ _ phase performed slot (by simp) (by simp) _ rfl
  · next index frame frames slot =>
    simp only [Process.brokerStep, Option.some.injEq, Prod.mk.injEq] at fired
    obtain ⟨rfl, rfl⟩ := fired
    exact .message i _ _ phase performed slot (by simp) (by simp) _ rfl
  · cases fired

theorem flush_move (fired : process.flush = some (after, events)) :
    Move cfg process .flush after events := by
  unfold Process.flush at fired
  split at fired
  · cases fired
  · cases fired
  · next output rest unperformed live =>
    simp only [Option.some.injEq] at fired
    have first := congrArg Prod.fst fired
    have second := congrArg Prod.snd fired
    simp only at first second
    subst first second
    exact .flush output rest live unperformed

theorem workerStep_move {index : Nat}
    (fired : process.workerStep cfg index = some (after, events)) :
    Move cfg process (.worker index) after events := by
  unfold Process.workerStep at fired
  simp only at fired
  split at fired
  · next enabled =>
    split at fired
    · cases fired
    · next cmd rest unread =>
      simp only [Option.some.injEq, Prod.mk.injEq] at fired
      obtain ⟨rfl, rfl⟩ := fired
      exact .worker index cmd rest enabled.1 enabled.2.1 enabled.2.2 unread _ rfl
  · cases fired

theorem step_move {action : Action} (fired : (machine cfg).step process action = some (after, events)) :
    Move cfg process action after events := by
  change process.step cfg action = some (after, events) at fired
  cases action with
  | thread thread action =>
    obtain ⟨running, move⟩ := threadStep_move fired
    exact .thread thread action after events running move
  | loopTop =>
    simp only [Process.step] at fired
    split at fired
    · next enabled =>
      simp only [Process.brokerStep, Option.some.injEq, Prod.mk.injEq] at fired
      obtain ⟨rfl, rfl⟩ := fired
      exact .loopTop enabled.1 enabled.2
    · cases fired
  | timers now =>
    simp only [Process.step] at fired
    split at fired
    · next enabled =>
      simp only [Process.brokerStep, Option.some.injEq, Prod.mk.injEq] at fired
      obtain ⟨rfl, rfl⟩ := fired
      exact .timers now enabled.1 enabled.2
    · cases fired
  | poll outcome =>
    simp only [Process.step] at fired
    split at fired
    · next enabled =>
      simp only [Process.brokerStep, Option.some.injEq, Prod.mk.injEq] at fired
      obtain ⟨rfl, rfl⟩ := fired
      exact .poll outcome enabled.1 enabled.2
    · cases fired
  | dispatch input =>
    simp only [Process.step] at fired
    split at fired
    · next i phase performed => exact dispatchAt_move phase performed fired
    · cases fired
  | flush => exact flush_move fired
  | worker index => exact workerStep_move fired
  | release thread =>
    simp only [Process.step, Process.release] at fired
    split at fired
    · next enabled =>
      simp only [Option.some.injEq, Prod.mk.injEq] at fired
      obtain ⟨rfl, rfl⟩ := fired
      exact .release thread enabled.1 enabled.2
    · cases fired
  | joinBroker =>
    simp only [Process.step, Process.joinBroker] at fired
    split at fired
    · next enabled =>
      simp only [Option.some.injEq, Prod.mk.injEq] at fired
      obtain ⟨rfl, rfl⟩ := fired
      exact .joinBroker enabled.1 enabled.2.1 enabled.2.2
    · cases fired
  | joinWorkers =>
    simp only [Process.step, Process.joinWorkers] at fired
    split at fired
    · next enabled =>
      simp only [Option.some.injEq, Prod.mk.injEq] at fired
      obtain ⟨rfl, rfl⟩ := fired
      refine .joinWorkers enabled.1 (fun index legal => ?_)
      have stopped := List.all_eq_true.mp enabled.2 index (List.mem_range.mpr legal)
      simpa using stopped
    · cases fired

end Rpcz.Moves
