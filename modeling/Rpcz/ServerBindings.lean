import Rpcz.BlockingReplies
import Rpcz.SocketUse
import Rpcz.EndpointRegistry

/-!
`bind_map_` is keyed by the endpoint string, while every server keeps endpoints
of its own. As long as no bind is served for a string that still has an entry,
the broker and the servers run the registry, and `~server_impl` deletes exactly
the sockets its server bound. A second bind of one string overwrites the entry.
-/

namespace Rpcz.ServerBindings
open Automaton Message EventLog ReactorLoop WorkerThread BrokerThread ProcessModel Moves History
  SocketDeletion BrokerSockets BrokerFaults SocketUse BlockingCalls BlockingReplies HeaderCodec
open EndpointRegistry (Stage Life Registry)

/-! The registry a process shows. -/

/-- A router that is not made for a server has no owner to unbind it. -/
def ownerOf : MapId → Option Nat
  | .server server => some server
  | .user _ => none

def stage : Call → List Flight → Stage Bytes Nat
  | .binding map, [.unread (.bind endpoint)] => .binding (ownerOf map) endpoint
  | .binding map, [.answered (.socketIndex index)] => .bound (ownerOf map) index
  | .inserting index map, _ => .bound (ownerOf map) index
  | .destroying server remaining, _ => .destroying server remaining
  | .unbinding (some (server, remaining)), [.unread (.unbind endpoint)] =>
    .asking server endpoint remaining
  | .unbinding (some (server, remaining)), [.deleting socket] => .deleting server socket remaining
  | .unbinding (some (server, remaining)), [.answered _] => .destroying server remaining
  | .unbinding (some (server, _)), _ => .lost server
  | _, _ => .away

def life : Server → Life Bytes
  | .absent => .absent
  | .alive endpoints => .alive endpoints
  | .destroyed => .destroyed

def registry (process : Process) : Registry Thread Bytes Nat :=
  { stages := fun thread => stage (process.calls thread) (flights process thread)
    servers := fun server => life (process.servers server)
    owners := fun index => (process.routerFactories index).map ownerOf
    directory := process.broker.bindMap
    routers := fun index => process.broker.routerSockets[index]?.join
    count := process.broker.routerSockets.length
    marked := process.broker.reactor.delSockets.map Prod.fst
    closed := process.broker.isClosed }

/-! What is asked of the runs. -/

def Destroys (process : Process) (thread : Thread) (server : Nat) : Prop :=
  ∃ remaining, process.calls thread = .destroying server remaining ∨
    process.calls thread = .unbinding (some (server, remaining))

def Binds (process : Process) (thread : Thread) (server : Nat) : Prop :=
  process.calls thread = .binding (.server server) ∨
    ∃ index, process.calls thread = .inserting index (.server server)

/-- A server is not used while it is destroyed. -/
def Lifetime (process : Process) (action : Action) : Prop :=
  (∀ thread server endpoint, action = .thread thread (.serverBind server endpoint) →
    ∀ other, ¬ Destroys process other server) ∧
  ∀ thread server, action = .thread thread (.destroyServer server) →
    ∀ other, ¬ Destroys process other server ∧ ¬ Binds process other server

/-- The command that the broker reads in the step, if it is at its frontend socket. -/
def reads (process : Process) (action : Action) : Option (Thread × Command) :=
  match process.broker.phase with
  | .dispatch i =>
    if process.broker.reactor.slot i = .ready .frontend then readCommand process action else none
  | _ => none

/-- A direct unbind that the broker reads names no endpoint that a server has recorded. -/
def OwnUnbinds (process : Process) (action : Action) : Prop :=
  ∀ sender endpoint, reads process action = some (sender, .unbind endpoint) →
    process.calls sender = .unbinding none →
      ∀ server endpoints, process.servers server = .alive endpoints → endpoint ∉ endpoints

/-- A bind that the broker reads names an endpoint that has no entry. -/
def Unbound (process : Process) (action : Action) : Prop :=
  ∀ sender endpoint, reads process action = some (sender, .bind endpoint) →
    process.broker.bindMap endpoint = none

structure Orderly (process : Process) (action : Action) : Prop where
  accepted : Accepted process action
  lifetime : Lifetime process action
  ownUnbinds : OwnUnbinds process action

variable {cfg : Config} {process after : Process} {events emitted : List Event}

theorem destroys_stage (call : Call) (flights : List Flight) :
    (stage call flights).destroys = match call with
      | .destroying server _ => some server
      | .unbinding (some (server, _)) => some server
      | _ => none := by
  unfold stage
  split <;> simp_all [Stage.destroys]

theorem destroys_of_stage {thread : Thread} {server : Nat}
    (destroying : ((registry process).stages thread).destroys = some server) :
    Destroys process thread server := by
  rw [registry, destroys_stage] at destroying
  split at destroying
  · next other remaining inside =>
    cases destroying
    exact ⟨remaining, .inl inside⟩
  · next other remaining inside =>
    cases destroying
    exact ⟨remaining, .inr inside⟩
  · cases destroying

theorem ownerOf_server {map : MapId} {server : Nat} (owner : ownerOf map = some server) :
    map = .server server := by
  cases map with
  | server other =>
    cases owner
    rfl
  | user => cases owner

theorem uses_of_stage {thread : Thread} {server : Nat}
    (using_ : ((registry process).stages thread).uses = some server) :
    Binds process thread server ∨ Destroys process thread server := by
  simp only [registry] at using_
  unfold stage at using_
  split at using_
  · next map endpoint inside _ => exact .inl (.inl (by rw [inside, ownerOf_server using_]))
  · next map index inside _ => exact .inl (.inl (by rw [inside, ownerOf_server using_]))
  · next index map inside => exact .inl (.inr ⟨index, by rw [inside, ownerOf_server using_]⟩)
  · next other remaining inside =>
    cases using_
    exact .inr ⟨remaining, .inl inside⟩
  · next other remaining endpoint inside _ =>
    cases using_
    exact .inr ⟨remaining, .inr inside⟩
  · next other remaining socket inside _ =>
    cases using_
    exact .inr ⟨remaining, .inr inside⟩
  · next other remaining body inside _ =>
    cases using_
    exact .inr ⟨remaining, .inr inside⟩
  · next other remaining inside _ _ _ =>
    cases using_
    exact .inr ⟨remaining, .inr inside⟩
  · cases using_

theorem registry_thread {actor : Thread} {action : ThreadAction}
    (move : ThreadMove cfg process actor action after emitted) :
    registry after = { registry process with
      stages := Function.update (registry process).stages actor
        (stage (after.calls actor) (flights after actor))
      servers := fun server => life (after.servers server)
      owners := fun index => (after.routerFactories index).map ownerOf } := by
  have frame := (threadMove_frame move).1
  have stages : (registry after).stages = Function.update (registry process).stages actor
      (stage (after.calls actor) (flights after actor)) := by
    funext thread
    by_cases here : thread = actor
    · subst here
      rw [Function.update_self]
      rfl
    · obtain ⟨calls, pipes, replies, _⟩ := threadMove_other here move
      rw [Function.update_of_ne here]
      simp only [registry, flights, unread, calls, pipes, replies, frame]
  simp only [registry] at stages ⊢
  rw [stages, frame]

theorem flights_written {thread : Thread} (cmd : Command) (waiting : blocks cmd = true)
    (alone : flights process thread = []) (broker : after.broker = process.broker)
    (pipes : after.pipes thread = process.pipes thread ++ [cmd])
    (replies : after.replies thread = process.replies thread) :
    flights after thread = [.unread cmd] := by
  have grown : unread after thread = unread process thread ++ [cmd] := by
    simp [unread, pipes, waiting]
  have same : flights after thread = flights process thread ++ [.unread cmd] := by
    simp only [flights, broker, replies, grown, List.map_append, List.map_cons, List.map_nil,
      List.append_assoc]
  rw [same, alone, List.nil_append]

theorem flights_answered {thread : Thread} {body : Reply} {rest : List Reply}
    (few : (flights process thread).length ≤ 1) (answer : process.replies thread = body :: rest) :
    flights process thread = [.answered body] := by
  have shape : ∃ more, flights process thread = .answered body :: more := by
    simp only [flights, answer, List.map_cons, List.cons_append]
    exact ⟨_, rfl⟩
  obtain ⟨more, same⟩ := shape
  rw [same, List.length_cons] at few
  have alone : more = [] := List.length_eq_zero_iff.mp (by omega)
  rw [same, alone]

theorem lives_update (server : Nat) (value : Server) :
    (fun name => life (Function.update process.servers server value name)) =
      Function.update (registry process).servers server (life value) :=
  funext (Function.apply_update (fun _ => life) process.servers server value)

theorem owners_update (index : Nat) (map : MapId) :
    (fun other => (Function.update process.routerFactories index (some map) other).map ownerOf) =
      Function.update (registry process).owners index (some (ownerOf map)) :=
  funext (Function.apply_update (fun _ => Option.map ownerOf) process.routerFactories index
    (some map))

theorem thread_simulates (matched : Matched process) {actor : Thread} {action : ThreadAction}
    (orderly : Orderly process (.thread actor action))
    (move : ThreadMove cfg process actor action after emitted) :
    registry after = registry process ∨ (registry process).Step (registry after) := by
  have shape := registry_thread move
  have frame := (threadMove_frame move).1
  have away : ∀ call, process.calls actor = call → blocked call = false →
      flights process actor = [] := fun call inside idle => matched.none_idle (by rw [inside, idle])
  have becomes : ∀ new servers owners, stage (after.calls actor) (flights after actor) = new →
      (fun server => life (after.servers server)) = servers →
      (fun index => (after.routerFactories index).map ownerOf) = owners →
      registry after = { registry process with
        stages := Function.update (registry process).stages actor new
        servers := servers
        owners := owners } := by
    rintro new servers owners rfl rfl rfl
    exact shape
  have still : stage (after.calls actor) (flights after actor) = (registry process).stages actor →
      after.servers = process.servers → after.routerFactories = process.routerFactories →
      registry after = registry process := by
    intro same servers owners
    rw [shape, same, Function.update_eq_self, servers, owners]
    rfl
  have idleStage : ∀ call, process.calls actor = call → (∀ flights, stage call flights = .away) →
      (registry process).stages actor = .away := by
    intro call inside rest
    simp only [registry, inside, rest]
  cases move with
  | request info service method payload handler timeoutMs idle =>
    refine .inl (still ?_ rfl rfl)
    rw [idleStage _ idle (fun _ => rfl)]
    simp [Process.setCall, stage]
  | requested info ctrl data inside | thrown info ctrl data inside =>
    refine .inl (still ?_ rfl rfl)
    rw [idleStage _ inside (fun _ => rfl)]
    simp [Process.setCall, Process.write, stage]
  | connect endpoint idle | unbind endpoint idle =>
    refine .inl (still ?_ rfl rfl)
    rw [idleStage _ idle (fun _ => rfl)]
    simp [Process.setCall, Process.write, stage]
  | connected index rest inside answer | unbound rest inside answer =>
    refine .inl (still ?_ rfl rfl)
    rw [idleStage _ inside (fun _ => rfl)]
    simp [Process.setCall, stage]
  | alreadyBound server endpoint idle | add closure idle | registerService info name svc idle
  | reply action info data idle made | registerFactory map name factory idle =>
    refine .inl (still ?_ rfl rfl)
    rw [idleStage _ idle (fun _ => rfl)]
    simp only [Process.write, idle]
    rfl
  | bound map index rest inside answer =>
    refine .inl (still ?_ rfl rfl)
    simp only [registry, inside, flights_answered (matched actor).1 answer]
    simp [Process.setCall, stage]
  | unboundNext server remaining rest inside answer =>
    refine .inl (still ?_ rfl rfl)
    simp only [registry, inside, flights_answered (matched actor).1 answer]
    simp [Process.setCall, stage]
  | newServer server idle absent =>
    refine .inr ?_
    rw [becomes _ _ _ rfl (lives_update server (.alive [])) rfl]
    have next := Registry.Step.newServer (r := registry process) server
      (by simp [registry, absent, life])
    rw [← Function.update_eq_self actor (registry process).stages] at next
    exact next
  | serverBind server endpoint endpoints idle alive fresh =>
    have now := flights_written (.bind endpoint) rfl (away _ idle rfl) frame
      (by simp [Process.startBind, Process.write, Process.setCall]) rfl
    refine .inr ?_
    rw [becomes (.binding (some server) endpoint) _ _
      (by rw [now]; simp [Process.startBind, Process.setCall, stage, ownerOf])
      (lives_update server (.alive (endpoints ++ [endpoint]))) rfl]
    exact .record actor server endpoint endpoints (idleStage _ idle (fun _ => rfl))
      (by simp [registry, alive, life]) fresh
      (fun other destroying => orderly.lifetime.1 actor server endpoint rfl other
        (destroys_of_stage destroying))
  | bind endpoint factories idle =>
    have now := flights_written (.bind endpoint) rfl (away _ idle rfl) frame
      (by simp [Process.startBind, Process.write, Process.setCall]) rfl
    refine .inr ?_
    rw [becomes (.binding none endpoint) _ _
      (by rw [now]; simp [Process.startBind, Process.setCall, stage, ownerOf]) rfl rfl]
    exact .bind actor endpoint (idleStage _ idle (fun _ => rfl))
  | nextUnbind server endpoint remaining inside =>
    have now := flights_written (.unbind endpoint) rfl (away _ inside rfl) frame
      (by simp [Process.write, Process.setCall]) rfl
    refine .inr ?_
    rw [becomes (.asking server endpoint remaining) _ _
      (by rw [now]; simp [Process.setCall, stage]) rfl rfl]
    exact .ask actor server endpoint remaining (by simp only [registry, inside, stage])
  | destroyServer server endpoints idle alive =>
    refine .inr ?_
    rw [becomes (.destroying server endpoints) _ _ (by simp [Process.setCall, stage]) rfl rfl]
    exact .destroy actor server endpoints (idleStage _ idle (fun _ => rfl))
      (by simp [registry, alive, life]) (fun other inside => by
        have free := orderly.lifetime.2 actor server rfl other
        rcases uses_of_stage inside with binds | destroys
        · exact free.2 binds
        · exact free.1 destroys)
  | insertFactories index map inside =>
    refine .inr ?_
    rw [becomes .away _ _ (by simp [Process.setCall, stage]) rfl (owners_update index map)]
    exact .insert actor (ownerOf map) index (by simp only [registry, inside, stage])
  | serverDestroyed server inside =>
    refine .inr ?_
    rw [becomes .away _ _ (by simp [Process.setCall, stage]) (lives_update server .destroyed) rfl]
    exact .finish actor server (by simp only [registry, inside, stage])

section Broker
variable {allowed : Process → Action → Prop}

theorem servers_aside {action : Action} (move : Move cfg process action after emitted)
    (other : ∀ thread step, action ≠ .thread thread step) :
    after.calls = process.calls ∧ after.servers = process.servers ∧
      after.routerFactories = process.routerFactories := by
  cases move with
  | thread thread action => exact absurd rfl (other thread action)
  | flush output rest =>
    cases output with
    | push | reply => exact ⟨rfl, rfl, rfl⟩
    | send info socket frames cause =>
      simp only [Process.perform]
      split <;> exact ⟨rfl, rfl, rfl⟩
  | _ => exact ⟨rfl, rfl, rfl⟩

theorem flights_kept (run : Run (machine cfg) allowed events process) {action : Action}
    (fired : (machine cfg).step process action = some (after, emitted)) {thread : Thread}
    (calls : after.calls thread = process.calls thread) (unasked : asked thread emitted = [])
    (open_ : ∀ socket, .socketClosed socket ∉ emitted) :
    flights after thread = flights process thread := by
  cases flight_step (sound_of_run run) (step_move fired) (matched_of_run run thread).1 with
  | still _ same => exact same
  | begins cmd idle waits =>
    rw [calls] at waits
    rw [waits.blocked] at idle
    cases idle
  | ends body waits idle =>
    rw [calls, waits.blocked] at idle
    cases idle
  | reads cmd fate _ only becomes asks =>
    rw [unasked] at asks
    cases asks
  | deleted socket _ only becomes _ unsent replies unread gone => exact absurd gone (open_ socket)

theorem flights_read (run : Run (machine cfg) allowed events process) {action : Action}
    (fired : (machine cfg).step process action = some (after, emitted)) {thread : Thread}
    {cmd : Command} (asks : asked thread emitted = [cmd]) :
    ∃ fate : Option Flight, flights process thread = [.unread cmd] ∧
      flights after thread = fate.toList ∧ Waits (process.calls thread) (.unread cmd) ∧
      (fate = none ∧ (after.broker.phase = .faulted ∨
          ∃ endpoint, cmd = .unbind endpoint ∧ process.broker.bindMap endpoint = none) ∨
        (∃ endpoint index, cmd = .connect endpoint ∧ fate = some (.answered (.socketIndex index))) ∨
        (∃ endpoint index, cmd = .bind endpoint ∧ fate = some (.answered (.socketIndex index)) ∧
          .routerCreated thread endpoint index ∈ emitted) ∨
        ∃ endpoint socket, cmd = .unbind endpoint ∧ fate = some (.deleting socket) ∧
          process.broker.bindMap endpoint = some socket) := by
  have matched := matched_of_run run thread
  cases flight_step (sound_of_run run) (step_move fired) matched.1 with
  | still _ same unasked | begins _ _ _ _ unasked | ends _ _ _ _ _ unasked
  | deleted _ _ _ _ unasked =>
    rw [unasked] at asks
    cases asks
  | reads other fate calls only becomes asks' unsent replies unread outcome =>
    rw [asks, List.cons.injEq] at asks'
    obtain ⟨rfl, _⟩ := asks'
    exact ⟨fate, only, becomes, matched.2 _ (by rw [only]; exact List.mem_singleton_self _), outcome⟩

theorem registry_aside (calls : after.calls = process.calls) (servers : after.servers = process.servers)
    (owners : after.routerFactories = process.routerFactories)
    (flying : ∀ thread, flights after thread = flights process thread)
    (owned : ownership after.broker = ownership process.broker) :
    registry after = registry process := by
  have directory : after.broker.bindMap = process.broker.bindMap := congrArg Ownership.bindMap owned
  have routers : after.broker.routerSockets = process.broker.routerSockets :=
    congrArg Ownership.routers owned
  have marked : after.broker.reactor.delSockets.map Prod.fst =
      process.broker.reactor.delSockets.map Prod.fst := congrArg Ownership.marked owned
  have deleted : after.broker.reactor.closed = process.broker.reactor.closed :=
    congrArg Ownership.closed owned
  have closed : after.broker.isClosed = process.broker.isClosed := by
    funext socket
    rw [Broker.isClosed, deleted, Broker.isClosed]
  simp only [registry, calls, servers, owners, flying, directory, routers, marked, closed]

theorem quiet_ownership {action : Action} (move : Move cfg process action after emitted)
    (other : ∀ thread step, action ≠ .thread thread step) (inside : action ≠ .loopTop)
    (unread : ∀ sender cmd, .handled sender cmd ∉ emitted) :
    ownership after.broker = ownership process.broker := by
  cases move with
  | thread thread action => exact absurd rfl (other thread action)
  | loopTop => exact absurd rfl inside
  | timers | finished | quiet | outOfRange | worker | release | joinBroker | joinWorkers => rfl
  | poll outcome => exact afterPoll_ownership outcome
  | command i sender oracle cmd => exact absurd List.mem_cons_self (unread sender cmd)
  | message i callback frames phase performed slot network nonempty result same =>
    subst same
    exact receive_ownership cfg _ callback frames
  | flush output rest =>
    rcases perform_broker (process.setOutbox rest) output with same | same <;>
      rw [same] <;> rfl

theorem quiet_simulates (run : Run (machine cfg) allowed events process) {action : Action}
    (fired : (machine cfg).step process action = some (after, emitted))
    (other : ∀ thread step, action ≠ .thread thread step) (inside : action ≠ .loopTop)
    (unread : ∀ sender cmd, .handled sender cmd ∉ emitted) :
    registry after = registry process := by
  have move := step_move fired
  obtain ⟨calls, servers, owners⟩ := servers_aside move other
  refine registry_aside calls servers owners (fun thread => ?_)
    (quiet_ownership move other inside unread)
  refine flights_kept run fired (by rw [calls]) ?_ (fun socket closed => ?_)
  · refine List.eq_nil_iff_forall_not_mem.mpr (fun cmd member => ?_)
    obtain ⟨event, source, shown⟩ := List.mem_filterMap.mp member
    cases event with
    | handled sender read => exact unread sender read source
    | _ => cases shown
  · rcases closed_step (sound_of_run run) move with ⟨_, silent⟩ | ⟨top, _⟩
    · have member := mem_closedIn.mpr closed
      rw [silent] at member
      cases member
    · exact inside top

theorem handleCommand_ownership {cmd : Command} (plain : blocks cmd = false) (broker : Broker)
    (oracle : Oracle) (sender : Thread) :
    ownership (broker.handleCommand cfg oracle sender cmd).1 = ownership broker := by
  cases cmd with
  | quit | runClosure | registerSvc => rfl
  | connect | bind | unbind => cases plain
  | request info ctrl data =>
    obtain ⟨closures, same⟩ := sendRequest_timers cfg broker oracle info ctrl data
    simp only [Broker.handleCommand, same]
    split <;> rfl
  | reply info data =>
    simp only [Broker.handleCommand, Broker.forwardTo]
    split <;> rfl

theorem routers_grown (routers : List (Option Nat)) (socket : Nat) :
    (fun index => (routers ++ [some socket])[index]?.join) =
      Function.update (fun index => routers[index]?.join) routers.length (some socket) := by
  funext index
  by_cases here : index = routers.length
  · subst here
    simp
  · rw [Function.update_of_ne here]
    rcases Nat.lt_or_gt_of_ne here with below | above
    · rw [List.getElem?_append_left below]
    · rw [List.getElem?_eq_none (by rw [List.length_append, List.length_singleton]; omega),
        List.getElem?_eq_none (by omega)]

theorem registry_command {sender : Thread}
    (calls : after.calls = process.calls) (servers : after.servers = process.servers)
    (owners : after.routerFactories = process.routerFactories)
    (others : ∀ thread ≠ sender, flights after thread = flights process thread)
    (closed : after.broker.reactor.closed = process.broker.reactor.closed) :
    registry after = { registry process with
      stages := Function.update (registry process).stages sender
        (stage (process.calls sender) (flights after sender))
      directory := after.broker.bindMap
      routers := fun index => after.broker.routerSockets[index]?.join
      count := after.broker.routerSockets.length
      marked := after.broker.reactor.delSockets.map Prod.fst } := by
  have stages : (registry after).stages = Function.update (registry process).stages sender
      (stage (process.calls sender) (flights after sender)) := by
    funext thread
    by_cases here : thread = sender
    · subst here
      rw [Function.update_self]
      simp only [registry, calls]
    · rw [Function.update_of_ne here]
      simp only [registry, calls, others thread here]
  have deleted : after.broker.isClosed = process.broker.isClosed := by
    funext socket
    rw [Broker.isClosed, closed, Broker.isClosed]
  simp only [registry] at stages ⊢
  rw [stages, servers, owners, deleted]

theorem command_simulates (run : Run (machine cfg) allowed events process) {action : Action}
    (fired : (machine cfg).step process action = some (after, emitted))
    (alive : after.broker.phase ≠ .faulted) (unbound : Unbound process action)
    (ownUnbinds : OwnUnbinds process action) {sender : Thread} {cmd : Command}
    (read : .handled sender cmd ∈ emitted) :
    registry after = registry process ∨ (registry process).Step (registry after) := by
  have move := step_move fired
  obtain ⟨i, oracle, rest, result, phase, performed, slot, rfl, unread, same, final, report⟩ :=
    handled_move move read
  have broker : after.broker = result.1 := by rw [final]
  obtain ⟨calls, servers, owners⟩ := servers_aside move (by simp)
  have read : reads process (.dispatch (.frontend sender oracle)) = some (sender, cmd) := by
    simp [reads, phase, slot, readCommand, unread]
  have source : ∀ event ∈ result.2 ++ queuedEvents result.1.outbox,
      origin event ≠ .handled := by
    intro event member
    rcases List.mem_append.mp member with left | right
    · rw [handleCommand_origin cfg _ oracle sender cmd event (same ▸ left)]
      decide
    · rw [queuedEvents_origin event right]
      decide
  obtain ⟨closed, silent⟩ : after.broker.reactor.closed = process.broker.reactor.closed ∧
      closedIn emitted = [] := by
    rcases closed_step (sound_of_run run) move with kept | ⟨top, _⟩
    · exact kept
    · cases top
  have open_ : ∀ socket, .socketClosed socket ∉ emitted := by
    intro socket member
    have listed := mem_closedIn.mpr member
    rw [silent] at listed
    cases listed
  have asks : ∀ thread, asked thread emitted = if sender = thread ∧ blocks cmd then [cmd] else [] := by
    intro thread
    rw [report]
    have tail := asked_other thread source
    unfold asked at tail ⊢
    rw [List.filterMap_cons, tail]
    by_cases here : sender = thread ∧ blocks cmd = true
    · simp [here]
    · simp only [if_neg here]
  have others : ∀ thread ≠ sender, flights after thread = flights process thread := by
    intro thread apart
    exact flights_kept run fired (by rw [calls]) (by rw [asks, if_neg (fun here => apart here.1.symm)])
      open_
  cases blocking : blocks cmd with
  | false =>
    refine .inl (registry_aside calls servers owners (fun thread => ?_) ?_)
    · exact flights_kept run fired (by rw [calls]) (by rw [asks, if_neg (by simp [blocking])]) open_
    · rw [broker, ← same, handleCommand_ownership blocking]
      rfl
  | true =>
    have shape := registry_command calls servers owners others closed
    obtain ⟨fate, only, becomes, waits, outcome⟩ :=
      flights_read run fired (by rw [asks, if_pos ⟨rfl, blocking⟩])
    rw [broker] at alive shape
    cases cmd with
    | connect endpoint =>
      have before : process.calls sender = .connecting := by
        revert waits
        cases process.calls sender <;> simp [Waits]
      have tables : result.1.bindMap = process.broker.bindMap ∧
          result.1.routerSockets = process.broker.routerSockets ∧
          result.1.reactor.delSockets = process.broker.reactor.delSockets := by
        rw [← same]
        simp only [Broker.handleCommand, Broker.handleConnectCommand]
        split <;> exact ⟨rfl, rfl, rfl⟩
      have away : stage .connecting (flights after sender) = (registry process).stages sender := by
        simp only [registry, before]
        rfl
      refine .inl ?_
      rw [shape, before, tables.1, tables.2.1, tables.2.2, away, Function.update_eq_self]
      rfl
    | bind endpoint =>
      obtain ⟨map, before⟩ : ∃ map, process.calls sender = .binding map := by
        revert waits
        cases process.calls sender <;> simp [Waits]
      simp only [Broker.handleCommand, Broker.handleBindCommand] at same
      split at same
      · subst same
        rcases outcome with ⟨_, stopped | ⟨_, other, _⟩⟩ | ⟨_, _, other, _⟩ |
          ⟨name, index, _, answered, created⟩ | ⟨_, _, other, _⟩
        · rw [broker] at stopped
          exact absurd stopped alive
        · cases other
        · cases other
        · have here : index = process.broker.routerSockets.length := by
            rw [report] at created
            simp only [queuedEvents, Broker.emit, performed, List.nil_append, List.filterMap_cons,
              List.filterMap_nil, List.append_nil, List.mem_cons, reduceCtorEq, false_or,
              Event.routerCreated.injEq, List.not_mem_nil, or_false] at created
            exact created.2.2
          rw [answered, here] at becomes
          have next := Registry.Step.create (r := registry process) sender (ownerOf map) endpoint
            process.broker.nextSocket (by simp only [registry, before, only, stage])
            (unbound sender endpoint read)
          refine .inr ?_
          rw [shape, before, becomes]
          simp only [Broker.emit, routers_grown, List.length_append, List.length_singleton]
          exact next
        · cases other
      · subst same
        exact absurd rfl alive
    | unbind endpoint =>
      obtain ⟨remains, before⟩ : ∃ remains, process.calls sender = .unbinding remains := by
        revert waits
        cases process.calls sender <;> simp [Waits]
      simp only [Broker.handleCommand, Broker.handleUnbindCommand] at same
      cases found : process.broker.bindMap endpoint with
      | none =>
        simp only [found] at same
        subst same
        have lost : fate = none := by
          rcases outcome with ⟨same, _⟩ | ⟨_, _, other, _⟩ | ⟨_, _, other, _⟩ |
            ⟨name, socket, same, _, other⟩
          · exact same
          · cases other
          · cases other
          · cases same
            rw [found] at other
            cases other
        rw [lost] at becomes
        cases remains with
        | none =>
          refine .inl ?_
          have away : stage (.unbinding none) (flights after sender) =
              (registry process).stages sender := by
            simp only [registry, before]
            rfl
          rw [shape, before, away, Function.update_eq_self]
          rfl
        | some remains =>
          obtain ⟨server, remaining⟩ := remains
          refine .inr ?_
          rw [shape, before, becomes]
          exact .miss sender server endpoint remaining (by simp only [registry, before, only, stage])
            found
      | some socket =>
        simp only [found] at same
        subst same
        have going : fate = some (.deleting socket) := by
          rcases outcome with ⟨_, stopped | ⟨_, same, missing⟩⟩ | ⟨_, _, other, _⟩ |
            ⟨_, _, other, _⟩ | ⟨name, other, same, going, entry⟩
          · rw [broker] at stopped
            exact absurd stopped alive
          · cases same
            rw [found] at missing
            cases missing
          · cases other
          · cases other
          · cases same
            rw [found, Option.some.injEq] at entry
            rw [entry, going]
        rw [going] at becomes
        have marked : ((process.broker.reactor.delSocket socket sender).delSockets).map Prod.fst =
            process.broker.reactor.delSockets.map Prod.fst ++ [socket] := by
          simp [Reactor.delSocket]
        refine .inr ?_
        rw [shape, before, becomes]
        simp only [marked]
        cases remains with
        | none =>
          have away : stage (.unbinding none) [.deleting socket] =
              (registry process).stages sender := by
            simp only [registry, before]
            rfl
          have next := Registry.Step.unbind (r := registry process) endpoint socket found
            (fun server endpoints alive => by
              refine ownUnbinds sender endpoint read before server endpoints ?_
              simp only [registry] at alive
              cases lives : process.servers server with
              | alive names =>
                simp only [lives, life, Life.alive.injEq] at alive
                rw [alive]
              | absent | destroyed => simp [lives, life] at alive)
          simp only [Option.toList_some, away, Function.update_eq_self]
          exact next
        | some remains =>
          obtain ⟨server, remaining⟩ := remains
          exact .mark sender server endpoint remaining socket
            (by simp only [registry, before, only, stage]) found
    | _ => cases blocking

theorem isClosed_iff {broker : Broker} {socket : Nat} :
    broker.isClosed socket = true ↔ socket ∈ broker.reactor.closed.map Prod.fst := by
  simp [Broker.isClosed]

theorem loopTop_simulates (run : Run (machine cfg) allowed events process)
    (permitted : allowed process .loopTop)
    (fired : (machine cfg).step process .loopTop = some (after, emitted)) :
    registry after = registry process ∨ (registry process).Step (registry after) := by
  have later := run.next permitted fired
  have report := closed_of_run later
  have move := step_move fired
  have calls := (servers_aside move (by simp)).1
  have moved : ∀ thread, (registry after).stages thread = (registry process).stages thread ∨
      ∃ server socket remaining,
        (registry process).stages thread = .deleting server socket remaining ∧
          (registry after).stages thread = .destroying server remaining ∧
          (registry after).closed socket = true := by
    intro thread
    have matched := matched_of_run run thread
    have same : after.calls thread = process.calls thread := by rw [calls]
    cases flight_step (sound_of_run run) move matched.1 with
    | still _ flying => exact .inl (by simp only [registry, same, flying])
    | begins cmd idle waits =>
      rw [same] at waits
      rw [waits.blocked] at idle
      cases idle
    | ends body waits idle =>
      rw [same, waits.blocked] at idle
      cases idle
    | reads cmd fate _ only becomes asks =>
      obtain ⟨_, _, _, _, _, _, _, other, _⟩ := handled_move move (handled_of_asked asks)
      cases other
    | deleted socket _ only becomes _ _ _ _ gone =>
      have waits := matched.2 (.deleting socket) (by rw [only]; exact List.mem_singleton_self _)
      obtain ⟨remains, before⟩ : ∃ remains, process.calls thread = .unbinding remains := by
        revert waits
        cases process.calls thread <;> simp [Waits]
      cases remains with
      | none =>
        refine .inl ?_
        simp only [registry, same, before]
        rfl
      | some remains =>
        obtain ⟨server, remaining⟩ := remains
        refine .inr ⟨server, socket, remaining, by simp only [registry, before, only, stage],
          by simp only [registry, same, before, becomes, stage], ?_⟩
        refine isClosed_iff.mpr ?_
        rw [← report]
        exact mem_closedIn.mpr (List.mem_append_right _ gone)
  cases move with
  | loopTop phase performed =>
    have sound := sound_of_run run (by simp [phase])
    rcases sound.loopTop_cases with ⟨same, _⟩ | ⟨same, _⟩ | ⟨_, rebuilt, removed, ran, spec, same⟩
    · refine .inl ?_
      rw [same]
      rfl
    · refine .inl ?_
      rw [same]
      rfl
    · have closed : process.broker.loopTop.1.reactor.closed =
          process.broker.reactor.closed ++ removed := by
        rw [same, ← spec.closed]
        rfl
      have next := Registry.Step.delete (r := registry process) _ _ moved
        (fun socket was => isClosed_iff.mpr (by
          rw [closed, List.map_append]
          exact List.mem_append_left _ (isClosed_iff.mp was)))
        (fun socket marked => isClosed_iff.mpr (by
          rw [closed, List.map_append]
          obtain ⟨index, owned⟩ := sound.marked socket marked
          rcases List.mem_append.mp (spec.sockets.mem_iff.mpr owned) with still | gone
          · exact absurd marked (spec.kept _ still)
          · exact List.mem_append_right _ (List.mem_map.mpr ⟨_, gone, rfl⟩)))
      refine .inr ?_
      have emptied : process.broker.loopTop.1.reactor.delSockets = [] := by
        rw [same, ← spec.emptied]
        rfl
      have tables : process.broker.loopTop.1.bindMap = process.broker.bindMap ∧
          process.broker.loopTop.1.routerSockets = process.broker.routerSockets := by
        rw [same]
        exact ⟨rfl, rfl⟩
      convert next using 1
      simp only [registry, emptied, tables.1, tables.2, List.map_nil]

end Broker

theorem simulates {allowed : Process → Action → Prop}
    (run : Run (machine cfg) allowed events process) {action : Action}
    (permitted : allowed process action) (orderly : Orderly process action)
    (unbound : Unbound process action)
    (fired : (machine cfg).step process action = some (after, emitted))
    (alive : after.broker.phase ≠ .faulted) :
    registry after = registry process ∨ (registry process).Step (registry after) := by
  by_cases top : action = .loopTop
  · subst top
    exact loopTop_simulates run permitted fired
  · by_cases read : ∃ sender cmd, .handled sender cmd ∈ emitted
    · obtain ⟨sender, cmd, member⟩ := read
      exact command_simulates run fired alive unbound orderly.ownUnbinds member
    · by_cases inside : ∃ thread step, action = .thread thread step
      · obtain ⟨thread, step, rfl⟩ := inside
        cases step_move fired with
        | thread _ _ _ _ running move => exact thread_simulates (matched_of_run run) orderly move
      · exact .inl (quiet_simulates run fired (fun thread step same => inside ⟨thread, step, same⟩) top
          (fun sender cmd member => read ⟨sender, cmd, member⟩))

theorem consistent_start : Registry.Consistent (registry Process.new) := by
  refine .start (fun _ => rfl) (fun _ => rfl) (fun _ => rfl) (fun index => ?_)
  cases index <;> rfl

/-- What the directory and `~server_impl` owe the servers. -/
structure UnbindsOwn (process : Process) : Prop where
  oneEntry : ∀ socket index, (socket, .router index) ∈ process.broker.reactor.sockets →
    socket ∉ process.broker.reactor.delSockets.map Prod.fst →
    ∃! endpoint, process.broker.bindMap endpoint = some socket
  /-- A destructor that waits has one answer under way, or its unbind finds an entry. -/
  returns : ∀ thread server remaining, process.calls thread = .unbinding (some (server, remaining)) →
    ∃ flight, flights process thread = [flight] ∧ Waits (process.calls thread) flight ∧
      ∀ endpoint, flight = .unread (.unbind endpoint) → process.broker.bindMap endpoint ≠ none
  /-- While the manager is in use the loop goes on, and its head answers the unbinds. -/
  loopGoesOn : process.shutdown = .running → process.broker.phase ≠ .exited ∧
    process.broker.phase ≠ .faulted ∧
    ∀ socket thread, (socket, thread) ∈ process.broker.reactor.delSockets →
      .reply thread .unbound ∈ process.broker.loopTop.1.outbox
  deleted : ∀ server index, process.servers server = .destroyed →
    process.routerFactories index = some (.server server) →
    ∃ socket, process.broker.routerSockets[index]? = some (some socket) ∧
      process.broker.isClosed socket = true
  /-- Until its own destructor runs, a server's sockets live and are reached by its endpoints. -/
  kept : ∀ server index endpoints, process.servers server = .alive endpoints →
    (∀ thread, ¬ Destroys process thread server) →
    process.routerFactories index = some (.server server) →
    ∃ endpoint ∈ endpoints, ∃ socket, process.broker.bindMap endpoint = some socket ∧
      process.broker.routerSockets[index]? = some (some socket) ∧
      (socket, .router index) ∈ process.broker.reactor.sockets ∧
      socket ∉ process.broker.reactor.delSockets.map Prod.fst
  recorded : ∀ server endpoints endpoint, process.servers server = .alive endpoints →
    (∀ thread, ¬ Destroys process thread server) → (∀ thread, ¬ Binds process thread server) →
    endpoint ∈ endpoints →
    ∃ index socket, process.routerFactories index = some (.server server) ∧
      process.broker.bindMap endpoint = some socket ∧
      process.broker.routerSockets[index]? = some (some socket)

/-- Every step keeps to the rules, and no bind is served for an endpoint that has an entry. -/
def Separate (process : Process) (action : Action) : Prop :=
  Orderly process action ∧ Unbound process action

theorem consistent_of_run (run : Run (machine cfg) Separate events process) :
    Registry.Consistent (registry process) := by
  refine Steps.invariant (fun _ process => Registry.Consistent (registry process))
    consistent_start ?_ run
  intro events process action emitted after earlier before permitted fired
  have alive := alive_of_run (earlier.next permitted fired) (fun _ _ met => met.1.accepted.1)
  rcases simulates earlier permitted permitted.1 permitted.2 fired alive with same | step
  · rw [same]
    exact before
  · exact before.step step

theorem router_listed {index socket : Nat}
    (made : (registry process).routers index = some socket) :
    process.broker.routerSockets[index]? = some (some socket) := by
  simp only [registry] at made
  cases entry : process.broker.routerSockets[index]? with
  | none => simp [entry] at made
  | some value =>
    rw [entry, Option.join_some] at made
    rw [made]

theorem none_binds_stage {thread : Thread} {server : Nat}
    (none_binds : ∀ thread, ¬ Binds process thread server)
    (none_destroys : ∀ thread, ¬ Destroys process thread server) :
    ((registry process).stages thread).uses ≠ some server := by
  intro inside
  rcases uses_of_stage inside with binds | destroys
  · exact none_binds thread binds
  · exact none_destroys thread destroys

theorem unbindsOwn_of_run (run : Run (machine cfg) Separate events process) :
    UnbindsOwn process := by
  have books := consistent_of_run run
  have alive := alive_of_run run (fun _ _ met => met.1.accepted.1)
  have sound := sound_of_run run alive
  have matched := matched_of_run run
  have lives : ∀ server endpoints, process.servers server = .alive endpoints →
      (registry process).servers server = .alive endpoints := by
    intro server endpoints here
    simp only [registry, here, life]
  have free : ∀ server, (∀ thread, ¬ Destroys process thread server) →
      ∀ thread, ((registry process).stages thread).destroys ≠ some server :=
    fun server none_destroys thread destroying => none_destroys thread (destroys_of_stage destroying)
  have told : ∀ server index, process.routerFactories index = some (.server server) →
      (registry process).owners index = some (some server) := by
    intro server index here
    simp only [registry, here]
    rfl
  refine ⟨fun socket index owned unmarked => ?_, fun thread server remaining inside => ?_,
    loop_goes_on (run.mono (fun _ _ met => met.1.accepted)), fun server index gone owner => ?_,
    fun server index endpoints here none_destroys owner => ?_,
    fun server endpoints endpoint here none_destroys none_binds member => ?_⟩
  · have made : (registry process).routers index = some socket := by
      have listed := (sound.routers index socket).mpr (List.mem_append_left _ owned)
      change process.broker.routerSockets[index]? = some (some socket) at listed
      simp [registry, listed]
    rcases books.holdings.entry index socket made with closed | marked | ⟨endpoint, found⟩
    · have still := sound.not_closed owned
      simp only [registry] at closed
      rw [closed] at still
      cases still
    · exact absurd marked unmarked
    · exact ⟨endpoint, found, fun other also => sound.apart other endpoint socket also found⟩
  · cases flying : flights process thread with
    | nil =>
      refine absurd ?_ (books.holdings.unlost thread server)
      simp only [registry, inside, flying, stage]
    | cons flight rest =>
      have few := (matched thread).1
      rw [flying, List.length_cons] at few
      have alone : rest = [] := List.length_eq_zero_iff.mp (by omega)
      subst alone
      refine ⟨flight, rfl, (matched thread).2 flight (by simp [flying]), ?_⟩
      rintro endpoint rfl
      have asking : (registry process).stages thread = .asking server endpoint remaining := by
        simp only [registry, inside, flying, stage]
      exact books.asking asking
  · obtain ⟨socket, made, closed⟩ := books.deleted (by simp only [registry, gone, life])
      (told server index owner)
    exact ⟨socket, router_listed made, closed⟩
  · obtain ⟨endpoint, member, socket, found, made⟩ := books.kept (lives server endpoints here)
      (free server none_destroys) (told server index owner)
    obtain ⟨⟨another, owned⟩, unmarked⟩ := sound.bound endpoint socket found
    have listed := router_listed made
    refine ⟨endpoint, member, socket, found, listed, ?_, unmarked⟩
    rcases List.mem_append.mp ((sound.routers index socket).mp listed) with alive | gone
    · exact alive
    · have closed : process.broker.isClosed socket = true :=
        isClosed_iff.mpr (List.mem_map.mpr ⟨_, gone, rfl⟩)
      rw [sound.not_closed owned] at closed
      cases closed
  · obtain ⟨index, socket, found, made, owned⟩ := books.recorded (lives server endpoints here)
      (free server none_destroys) member (fun thread waiting => none_binds_stage none_binds none_destroys
        (by rw [waiting]; rfl))
    refine ⟨index, socket, ?_, found, router_listed made⟩
    rcases owned with owner | ⟨thread, carrying⟩
    · simp only [registry, Option.map_eq_some_iff] at owner
      obtain ⟨map, inserted, own⟩ := owner
      rw [inserted, ownerOf_server own]
    · exact absurd (Registry.Stage.uses_of_carried carrying)
        (none_binds_stage none_binds none_destroys)

theorem readCommand_of_reads {action : Action} {read : Thread × Command}
    (reading : reads process action = some read) : readCommand process action = some read := by
  unfold reads at reading
  split at reading
  · split at reading
    · exact reading
    · cases reading
  · cases reading

theorem overwritten (run : Run (machine cfg) Separate events process) {action : Action}
    (accepted : Accepted process action)
    (fired : (machine cfg).step process action = some (after, emitted))
    (whole : UnbindsOwn after) : Unbound process action := by
  intro sender endpoint reading
  by_contra bound
  obtain ⟨socket, found⟩ := Option.ne_none_iff_exists'.mp bound
  have alive := alive_of_run run (fun _ _ met => met.1.accepted.1)
  have sound := sound_of_run run alive
  obtain ⟨⟨index, owned⟩, unmarked⟩ := sound.bound endpoint socket found
  have read := readCommand_of_reads reading
  cases step_move fired with
  | command i other oracle cmd rest phase performed slot unread result same =>
    simp only [readCommand, unread, List.head?_cons, Option.map_some, Option.some.injEq,
      Prod.mk.injEq] at read
    obtain ⟨rfl, rfl⟩ := read
    have served : oracle.accepts = true := by
      have kept := accepted.1
      simp only [breaks, unread, commandFault] at kept
      cases answer : oracle.accepts with
      | true => rfl
      | false => simp [answer] at kept
    simp only [Broker.handleCommand, Broker.handleBindCommand, served, if_pos] at same
    subst same
    obtain ⟨name, entry, _⟩ := whole.oneEntry socket index (List.mem_append_left _ owned) unmarked
    simp only [Broker.emit] at entry
    by_cases here : name = endpoint
    · rw [here, Function.update_self, Option.some.injEq] at entry
      have older : socket < process.broker.nextSocket :=
        sound.fresh _ (List.mem_append_left _ owned)
      omega
    · rw [Function.update_of_ne here] at entry
      exact here (sound.apart name endpoint socket entry found)
  | finished input i phase performed slot | quiet input i phase performed slot
  | outOfRange input i phase performed slot => simp [reads, phase, slot] at reading
  | _ => simp [readCommand] at read

/-- As long as every bind is served for an endpoint without an entry, servers unbind
exactly what is their own, and the first bind of another kind ends that. -/
theorem unbinds_own_iff (run : Run (machine cfg) Separate events process) :
    UnbindsOwn process ∧ ∀ action after emitted, Orderly process action →
      (machine cfg).step process action = some (after, emitted) →
        (UnbindsOwn after ↔ Unbound process action) :=
  ⟨unbindsOwn_of_run run, fun _ _ _ orderly fired =>
    ⟨overwritten run orderly.accepted fired,
      fun unbound => unbindsOwn_of_run (run.next ⟨orderly, unbound⟩ fired)⟩⟩

/-! Runs in which only one thread calls the library. -/

def solo : Action → Bool
  | .thread _ (.unbind _) => false
  | .thread thread _ => thread = .app 0
  | _ => true

def Solo (process : Process) (action : Action) : Prop :=
  solo action = true ∧ Accepted process action

instance (process : Process) (action : Action) : Decidable (Solo process action) :=
  inferInstanceAs (Decidable (_ ∧ _))

def bindOf : Command → Option Bytes
  | .bind endpoint => some endpoint
  | _ => none

instance (process : Process) (action : Action) : Decidable (Unbound process action) :=
  decidable_of_iff (∀ read ∈ reads process action, ∀ endpoint ∈ bindOf read.2,
      process.broker.bindMap endpoint = none) (by
    constructor
    · intro all sender endpoint reading
      exact all _ reading endpoint rfl
    · rintro all ⟨sender, cmd⟩ reading endpoint same
      cases cmd with
      | bind name =>
        cases same
        exact all sender endpoint reading
      | _ => cases same)

structure Alone (process : Process) : Prop where
  others : ∀ thread ≠ .app 0, process.calls thread = .idle
  itself : process.calls (.app 0) ≠ .unbinding none

theorem Alone.step (alone : Alone process) {action : Action} (permitted : Solo process action)
    (move : Move cfg process action after emitted) : Alone after ∧ Orderly process action := by
  have undirected : OwnUnbinds process action := by
    intro sender endpoint _ direct
    by_cases here : sender = .app 0
    · exact absurd (here ▸ direct) alone.itself
    · rw [alone.others sender here] at direct
      cases direct
  by_cases inside : ∃ thread step, action = .thread thread step
  · obtain ⟨thread, step, rfl⟩ := inside
    cases move with
    | thread _ _ _ _ running move =>
      obtain rfl : thread = .app 0 := by
        have only := permitted.1
        cases step <;> simp_all [solo]
      have others : ∀ other ≠ .app 0, after.calls other = .idle := by
        intro other apart
        rw [(threadMove_other apart move).1, alone.others other apart]
      have idleFree : process.calls (.app 0) = .idle → ∀ server other,
          ¬ Destroys process other server ∧ ¬ Binds process other server := by
        intro idle server other
        have outside : process.calls other = .idle := by
          by_cases here : other = .app 0
          · rw [here, idle]
          · exact alone.others other here
        simp [Destroys, Binds, outside]
      refine ⟨⟨others, ?_⟩, permitted.2, ⟨?_, ?_⟩, undirected⟩
      · cases move <;> simp_all [Process.setCall, Process.startBind, Process.write, solo, Solo]
      · rintro other server endpoint same
        cases same
        cases move with
        | serverBind _ _ _ idle | alreadyBound _ _ idle => exact fun other => (idleFree idle _ other).1
        | reply _ _ _ _ made => simp at made
      · rintro other server same
        cases same
        cases move with
        | destroyServer _ _ idle => exact idleFree idle _
        | reply _ _ _ _ made => simp at made
  · have apart : ∀ thread step, action ≠ .thread thread step :=
      fun thread step same => inside ⟨thread, step, same⟩
    have calls := (servers_aside move apart).1
    exact ⟨⟨by rw [calls]; exact alone.others, by rw [calls]; exact alone.itself⟩, permitted.2,
      ⟨fun thread server endpoint same => absurd same (apart _ _),
        fun thread server same => absurd same (apart _ _)⟩, undirected⟩

theorem orderly_of_solo {extra : Process → Action → Prop}
    (run : Run (machine cfg) (fun process action => Solo process action ∧ extra process action)
      events process) :
    Run (machine cfg) (fun process action => Orderly process action ∧ extra process action)
      events process := by
  refine (Steps.strengthen Alone ⟨fun _ _ => rfl, by simp [machine, Process.new]⟩ ?_ run).2
  intro process action after emitted alone permitted fired
  have step := alone.step permitted.1 (step_move fired)
  exact ⟨step.1, step.2, permitted.2⟩

/-- A new server of thread 0 binds an endpoint, with `count` sockets so far. -/
def served (server : Nat) (endpoint : Bytes) (count : Nat) : List Action :=
  [.thread (.app 0) (.newServer server), .thread (.app 0) (.serverBind server endpoint)] ++
    commandTurn count ++ [.thread (.app 0) .receive, .thread (.app 0) .insertFactories]

def unserved (server : Nat) (count : Nat) : List Action :=
  [.thread (.app 0) (.destroyServer server), .thread (.app 0) .nextUnbind, .loopTop, .timers 0,
    .poll (.ready (true :: List.replicate (count - 1) false)),
    .dispatch (.frontend (.app 0) ⟨true, 0, 0⟩)] ++ List.replicate count (.dispatch .nothing) ++
    [.loopTop, .flush, .thread (.app 0) .receive, .thread (.app 0) .nextUnbind]

abbrev separate : Machine Process Action Event :=
  (machine plain).guarded (fun process action => Solo process action ∧ Unbound process action)

/-- Servers 0 and 1 bind endpoints 1 and 2, and server 0 is destroyed. -/
def twoEndpoints : List Action := served 0 [1] 1 ++ served 1 [2] 2 ++ unserved 0 3

theorem unbinds_own_twoEndpoints : UnbindsOwn (reached separate twoEndpoints).1 ∧
    (reached separate twoEndpoints).1.servers 0 = .destroyed ∧
    (reached separate twoEndpoints).1.broker.isClosed 1 = true ∧
    (reached separate twoEndpoints).1.broker.bindMap [2] = some 2 :=
  ⟨(unbinds_own_iff (orderly_of_solo (Steps.of_guarded (run_reached separate twoEndpoints)))).1,
    by decide +kernel, by decide +kernel, by decide +kernel⟩

abbrev sharing : Machine Process Action Event := (machine plain).guarded Solo

def oneEndpoint : List Action := served 0 [1] 1 ++ served 1 [1] 2 ++ unserved 0 3

/-- The destructor of server 0 deletes the socket of server 1 and leaves its own. -/
theorem unbinds_other : ¬ ∀ cfg events process, Run (machine cfg) Orderly events process →
    UnbindsOwn process := by
  intro claim
  have weaker : ∀ process action, Solo process action → Solo process action ∧ anyStep process action :=
    fun _ _ permitted => ⟨permitted, trivial⟩
  have run := (Steps.of_guarded (run_reached sharing oneEndpoint)).mono weaker
  have whole := claim plain _ _ ((orderly_of_solo run).mono (fun _ _ met => met.1))
  obtain ⟨socket, listed, closed⟩ := whole.deleted 0 1 (by decide +kernel) (by decide +kernel)
  have own : (reached sharing oneEndpoint).1.broker.routerSockets[1]? = some (some 1) := by
    decide +kernel
  rw [own, Option.some.injEq, Option.some.injEq] at listed
  subst listed
  revert closed
  decide +kernel

end Rpcz.ServerBindings
