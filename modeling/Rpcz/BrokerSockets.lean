import Rpcz.History
import Rpcz.SocketDeletion

/-!
Who owns which socket. The broker keeps its sockets in `dealer_sockets_`,
`router_sockets_` and `bind_map_`, the reactor in `sockets_` and
`del_sockets_`; `Sound` says how the five agree at every point of the loop.
-/

namespace Rpcz.BrokerSockets
open Automaton Message EventLog ReactorLoop WorkerThread BrokerThread ProcessModel Moves History
  SocketDeletion

structure Ownership where
  sockets : List (Nat × SocketCallback)
  closed : List (Nat × SocketCallback)
  marked : List Nat
  polled : List Nat
  isDirty : Bool
  dealers : List (Option Nat)
  routers : List (Option Nat)
  bindMap : Bytes → Option Nat
  next : Nat

def ownership (broker : Broker) : Ownership :=
  { sockets := broker.reactor.sockets
    closed := broker.reactor.closed
    marked := broker.reactor.delSockets.map Prod.fst
    polled := broker.reactor.pollItems.map PollItem.socket
    isDirty := broker.reactor.isDirty
    dealers := broker.dealerSockets
    routers := broker.routerSockets
    bindMap := broker.bindMap
    next := broker.nextSocket }

/-- Index 0 is reserved, and every other index has a socket. -/
structure Table (table : List (Option Nat)) : Prop where
  reserved : table[0]? = some none
  filled : ∀ index, 0 < index → index < table.length → ∃ socket, table[index]? = some (some socket)

/-- A socket belongs to the reactor or has been deleted, never both; the tables
name it by the callback it was added with. -/
structure Sound (own : Ownership) : Prop where
  first : own.sockets[0]? = some (0, .frontend)
  distinct : ((own.sockets ++ own.closed).map Prod.fst).Nodup
  fresh : ∀ pair ∈ own.sockets ++ own.closed, pair.1 < own.next
  frontend : ∀ pair ∈ own.sockets ++ own.closed, pair.2 = .frontend → pair.1 = 0
  closedRouter : ∀ pair ∈ own.closed, ∃ index, pair.2 = .router index
  dealerTable : Table own.dealers
  routerTable : Table own.routers
  dealers : ∀ index socket, own.dealers[index]? = some (some socket) ↔
    (socket, .dealer index) ∈ own.sockets ++ own.closed
  routers : ∀ index socket, own.routers[index]? = some (some socket) ↔
    (socket, .router index) ∈ own.sockets ++ own.closed
  bound : ∀ endpoint socket, own.bindMap endpoint = some socket →
    (∃ index, (socket, .router index) ∈ own.sockets) ∧ socket ∉ own.marked
  apart : ∀ endpoint other socket, own.bindMap endpoint = some socket →
    own.bindMap other = some socket → endpoint = other
  marked : ∀ socket ∈ own.marked, ∃ index, (socket, .router index) ∈ own.sockets
  polled : own.polled <+: own.sockets.map Prod.fst
  clean : own.isDirty = false → own.marked = []

theorem Table.legal {table : List (Option Nat)} (sound : Table table) {index : Nat} :
    Broker.isIndexLegal table index = true ↔ ∃ socket, table[index]? = some (some socket) := by
  simp only [Broker.isIndexLegal, Bool.and_eq_true, decide_eq_true_eq]
  constructor
  · rintro ⟨positive, bound⟩
    exact sound.filled index positive bound
  · rintro ⟨socket, found⟩
    refine ⟨Nat.pos_of_ne_zero (fun zero => ?_), (List.getElem?_eq_some_iff.mp found).1⟩
    rw [zero, sound.reserved] at found
    cases found

theorem Table.push {table : List (Option Nat)} (sound : Table table) (socket : Nat) :
    Table (table ++ [some socket]) where
  reserved := by
    rw [List.getElem?_append_left (List.getElem?_eq_some_iff.mp sound.reserved).1, sound.reserved]
  filled := by
    intro index positive bound
    rw [List.length_append, List.length_singleton] at bound
    by_cases inside : index < table.length
    · rw [List.getElem?_append_left inside]
      exact sound.filled index positive inside
    · obtain rfl : index = table.length := by omega
      exact ⟨socket, List.getElem?_concat_length⟩

theorem push_getElem {table : List (Option Nat)} {socket other index : Nat} :
    (table ++ [some socket])[index]? = some (some other) ↔
      table[index]? = some (some other) ∨ index = table.length ∧ other = socket := by
  rw [List.getElem?_append]
  split
  · next inside =>
    constructor
    · exact .inl
    · rintro (found | ⟨rfl, _⟩)
      · exact found
      · omega
  · next outside =>
    have beyond : table[index]? = none := List.getElem?_eq_none (by omega)
    rw [beyond]
    constructor
    · intro found
      obtain ⟨bound, same⟩ := List.getElem?_eq_some_iff.mp found
      rw [List.length_singleton] at bound
      simp only [List.getElem_singleton, Option.some.injEq] at same
      exact .inr ⟨by omega, same.symm⟩
    · rintro (found | ⟨rfl, rfl⟩)
      · cases found
      · simp

section Operations
variable {own : Ownership}

theorem Sound.start : Sound (ownership Broker.new) where
  first := rfl
  distinct := by simp [ownership, Broker.new, Reactor.addSocket]
  fresh := by simp [ownership, Broker.new, Reactor.addSocket]
  frontend := by simp [ownership, Broker.new, Reactor.addSocket]
  closedRouter := by simp [ownership, Broker.new, Reactor.addSocket]
  dealerTable := ⟨rfl, fun index positive bound => by
    simp only [ownership, Broker.new, List.length_singleton] at bound; omega⟩
  routerTable := ⟨rfl, fun index positive bound => by
    simp only [ownership, Broker.new, List.length_singleton] at bound; omega⟩
  dealers := by
    intro index socket
    cases index <;> simp [ownership, Broker.new, Reactor.addSocket]
  routers := by
    intro index socket
    cases index <;> simp [ownership, Broker.new, Reactor.addSocket]
  bound := by simp [ownership, Broker.new]
  apart := by simp [ownership, Broker.new]
  marked := by simp [ownership, Broker.new, Reactor.addSocket]
  polled := by simp [ownership, Broker.new, Reactor.addSocket]
  clean := by simp [ownership, Broker.new, Reactor.addSocket]

/-- The socket `add_socket` gets is new, so the old pairs and the new one stay apart. -/
theorem Sound.add_distinct (sound : Sound own) (callback : SocketCallback) :
    ((own.sockets ++ [(own.next, callback)] ++ own.closed).map Prod.fst).Nodup := by
  have moved : (own.sockets ++ [(own.next, callback)] ++ own.closed).Perm
      ((own.next, callback) :: (own.sockets ++ own.closed)) := by
    rw [List.append_assoc, List.singleton_append]
    exact List.perm_middle
  rw [(moved.map Prod.fst).nodup_iff, List.map_cons, List.nodup_cons]
  refine ⟨fun member => ?_, sound.distinct⟩
  obtain ⟨pair, inside, same⟩ := List.mem_map.mp member
  have low := sound.fresh pair inside
  omega

theorem mem_add {sockets closed : List (Nat × SocketCallback)} {pair added : Nat × SocketCallback} :
    pair ∈ sockets ++ [added] ++ closed ↔ pair ∈ sockets ++ closed ∨ pair = added := by
  simp only [List.mem_append, List.mem_singleton]
  exact or_right_comm

theorem Sound.first_append (sound : Sound own) (more : List (Nat × SocketCallback)) :
    (own.sockets ++ more)[0]? = some (0, .frontend) := by
  rw [List.getElem?_append_left (List.getElem?_eq_some_iff.mp sound.first).1, sound.first]

theorem Sound.polled_append (sound : Sound own) (more : List (Nat × SocketCallback)) :
    own.polled <+: (own.sockets ++ more).map Prod.fst := by
  rw [List.map_append]
  exact sound.polled.trans (List.prefix_append _ _)

theorem Sound.connect (sound : Sound own) :
    Sound { own with
      sockets := own.sockets ++ [(own.next, .dealer own.dealers.length)]
      isDirty := true
      dealers := own.dealers ++ [some own.next]
      next := own.next + 1 } where
  first := sound.first_append _
  distinct := sound.add_distinct _
  fresh := by
    intro pair member
    rcases mem_add.mp member with old | rfl
    · have low := sound.fresh pair old
      simp only
      omega
    · simp
  frontend := by
    intro pair member callback
    rcases mem_add.mp member with old | rfl
    · exact sound.frontend pair old callback
    · cases callback
  closedRouter := sound.closedRouter
  dealerTable := sound.dealerTable.push _
  routerTable := sound.routerTable
  dealers := by
    intro index socket
    rw [push_getElem, mem_add, sound.dealers]
    simp only [Prod.mk.injEq, SocketCallback.dealer.injEq]
    exact or_congr_right and_comm
  routers := by
    intro index socket
    rw [mem_add, sound.routers]
    simp
  bound := by
    intro endpoint socket found
    obtain ⟨⟨index, member⟩, unmarked⟩ := sound.bound endpoint socket found
    exact ⟨⟨index, List.mem_append_left _ member⟩, unmarked⟩
  apart := sound.apart
  marked := by
    intro socket member
    obtain ⟨index, inside⟩ := sound.marked socket member
    exact ⟨index, List.mem_append_left _ inside⟩
  polled := sound.polled_append _
  clean := by simp

theorem Sound.unused (sound : Sound own) (endpoint : Bytes) :
    own.bindMap endpoint ≠ some own.next := by
  intro found
  obtain ⟨⟨index, member⟩, _⟩ := sound.bound endpoint own.next found
  exact Nat.lt_irrefl _ (sound.fresh _ (List.mem_append_left _ member))

theorem Sound.bind (sound : Sound own) (endpoint : Bytes) :
    Sound { own with
      sockets := own.sockets ++ [(own.next, .router own.routers.length)]
      isDirty := true
      routers := own.routers ++ [some own.next]
      bindMap := Function.update own.bindMap endpoint (some own.next)
      next := own.next + 1 } where
  first := sound.first_append _
  distinct := sound.add_distinct _
  fresh := by
    intro pair member
    rcases mem_add.mp member with old | rfl
    · have low := sound.fresh pair old
      simp only
      omega
    · simp
  frontend := by
    intro pair member callback
    rcases mem_add.mp member with old | rfl
    · exact sound.frontend pair old callback
    · cases callback
  closedRouter := sound.closedRouter
  dealerTable := sound.dealerTable
  routerTable := sound.routerTable.push _
  dealers := by
    intro index socket
    rw [mem_add, sound.dealers]
    simp
  routers := by
    intro index socket
    rw [push_getElem, mem_add, sound.routers]
    simp only [Prod.mk.injEq, SocketCallback.router.injEq]
    exact or_congr_right and_comm
  bound := by
    intro other socket found
    by_cases here : other = endpoint
    · subst here
      simp only [Function.update_self, Option.some.injEq] at found
      subst found
      refine ⟨⟨_, List.mem_append_right _ (List.mem_singleton_self _)⟩, fun member => ?_⟩
      obtain ⟨index, inside⟩ := sound.marked _ member
      exact Nat.lt_irrefl _ (sound.fresh _ (List.mem_append_left _ inside))
    · simp only [Function.update_of_ne here] at found
      obtain ⟨⟨index, member⟩, unmarked⟩ := sound.bound other socket found
      exact ⟨⟨index, List.mem_append_left _ member⟩, unmarked⟩
  apart := by
    intro left right socket atLeft atRight
    simp only [Function.update_apply] at atLeft atRight
    split at atLeft <;> split at atRight
    · next same same' => rw [same, same']
    · cases atLeft; exact absurd atRight (sound.unused right)
    · cases atRight; exact absurd atLeft (sound.unused left)
    · exact sound.apart left right socket atLeft atRight
  marked := by
    intro socket member
    obtain ⟨index, inside⟩ := sound.marked socket member
    exact ⟨index, List.mem_append_left _ inside⟩
  polled := sound.polled_append _
  clean := by simp

theorem Sound.unbind (sound : Sound own) {endpoint : Bytes} {socket : Nat}
    (found : own.bindMap endpoint = some socket) :
    Sound { own with
      marked := own.marked ++ [socket]
      isDirty := true
      bindMap := Function.update own.bindMap endpoint none } where
  first := sound.first
  distinct := sound.distinct
  fresh := sound.fresh
  frontend := sound.frontend
  closedRouter := sound.closedRouter
  dealerTable := sound.dealerTable
  routerTable := sound.routerTable
  dealers := sound.dealers
  routers := sound.routers
  bound := by
    intro other socket' found'
    by_cases here : other = endpoint
    · subst here
      simp at found'
    · simp only [Function.update_of_ne here] at found'
      obtain ⟨live, unmarked⟩ := sound.bound other socket' found'
      refine ⟨live, fun member => ?_⟩
      rcases List.mem_append.mp member with old | new
      · exact unmarked old
      · rw [List.mem_singleton.mp new] at found'
        exact here (sound.apart other endpoint socket found' found)
  apart := by
    intro left right other atLeft atRight
    simp only [Function.update_apply] at atLeft atRight
    split at atLeft
    · cases atLeft
    · split at atRight
      · cases atRight
      · exact sound.apart left right other atLeft atRight
  marked := by
    intro other member
    rcases List.mem_append.mp member with old | new
    · exact sound.marked other old
    · rw [List.mem_singleton.mp new]
      exact (sound.bound endpoint socket found).1
  polled := sound.polled
  clean := by simp

/-- The marked sockets are where `process_del_sockets` looks for them. -/
theorem Sound.marked_ahead {broker : Broker} (sound : Sound (ownership broker)) :
    Marked broker.reactor where
  distinct := by
    have := sound.distinct
    rw [List.map_append] at this
    exact this.of_append_left
  nonempty := fun empty => by
    have := sound.first
    simp [ownership, empty] at this
  ahead := by
    intro id member
    obtain ⟨index, inside⟩ := sound.marked id member
    obtain ⟨j, found⟩ := List.getElem?_of_mem inside
    refine ⟨j, _, Nat.pos_of_ne_zero (fun zero => ?_), found, rfl⟩
    rw [zero, sound.first] at found
    cases found

theorem Sound.rebuild {broker : Broker} (sound : Sound (ownership broker))
    {rebuilt : Reactor SocketCallback Thread TimeoutClosure} {removed : List (Nat × SocketCallback)}
    {ran : List Thread} (spec : Rebuilt broker.reactor rebuilt removed ran) :
    Sound (ownership { broker with reactor := rebuilt }) := by
  have all : (rebuilt.sockets ++ rebuilt.closed).Perm
      (broker.reactor.sockets ++ broker.reactor.closed) := by
    rw [spec.closed]
    calc rebuilt.sockets ++ (broker.reactor.closed ++ removed)
        |>.Perm (rebuilt.sockets ++ (removed ++ broker.reactor.closed)) :=
          List.perm_append_comm.append_left _
      _ |>.Perm (broker.reactor.sockets ++ broker.reactor.closed) := by
          rw [← List.append_assoc]
          exact spec.sockets.append_right _
  exact
  { first := spec.first.trans sound.first
    distinct := (all.map Prod.fst).nodup_iff.mpr sound.distinct
    fresh := fun pair member => sound.fresh pair (all.mem_iff.mp member)
    frontend := fun pair member => sound.frontend pair (all.mem_iff.mp member)
    closedRouter := by
      intro pair member
      have inside : pair ∈ broker.reactor.closed ++ removed := spec.closed ▸ member
      rcases List.mem_append.mp inside with old | new
      · exact sound.closedRouter pair old
      · obtain ⟨index, same⟩ := sound.marked pair.1 (spec.marked pair new)
        have here : pair ∈ broker.reactor.sockets := spec.sockets.subset (List.mem_append_right _ new)
        have unique := List.inj_on_of_nodup_map sound.marked_ahead.distinct here same rfl
        exact ⟨index, congrArg Prod.snd unique⟩
    dealerTable := sound.dealerTable
    routerTable := sound.routerTable
    dealers := fun index socket => (sound.dealers index socket).trans all.mem_iff.symm
    routers := fun index socket => (sound.routers index socket).trans all.mem_iff.symm
    bound := by
      intro endpoint socket found
      obtain ⟨⟨index, member⟩, unmarked⟩ := sound.bound endpoint socket found
      refine ⟨⟨index, ?_⟩, by simp [ownership, spec.emptied]⟩
      rcases List.mem_append.mp (spec.sockets.mem_iff.mpr member) with kept | gone
      · exact kept
      · exact absurd (spec.marked _ gone) unmarked
    apart := sound.apart
    marked := by simp [ownership, spec.emptied]
    polled := by simp [ownership, spec.polled]
    clean := by simp [ownership, spec.emptied] }

end Operations

section Handlers
variable {cfg : Config} {broker : Broker}

@[simp] theorem ownership_emit (outputs : List Output) :
    ownership (broker.emit outputs) = ownership broker := rfl

@[simp] theorem ownership_phase (phase : Phase) :
    ownership { broker with phase := phase } = ownership broker := rfl

theorem ownership_setRevents (flags : List Bool) :
    ownership { broker with reactor := broker.reactor.setRevents flags } = ownership broker := by
  have sockets : (broker.reactor.setRevents flags).pollItems.map PollItem.socket =
      broker.reactor.pollItems.map PollItem.socket := by
    refine List.ext_getElem? (fun i => ?_)
    simp only [Reactor.setRevents, List.getElem?_map, List.getElem?_mapIdx, Option.map_map]
    rfl
  simp only [ownership, sockets]
  rfl

theorem sendRequest_timers (cfg : Config) (broker : Broker) (oracle : Oracle) (info : ConnectionInfo) (ctrl : Controller)
    (data : List Frame) : ∃ closures,
      let timed := { broker with reactor := { broker.reactor with closureRunMap := closures } }
      broker.sendRequest cfg oracle info ctrl data =
        match broker.socketOf info with
        | none => timed.fault (.illegalIndex info)
        | some socket =>
          (timed.emit [.send info socket (Broker.wireFrames info data) (some ctrl),
            .push (cfg.getWorkerIndex info) (.startRpc ctrl)], []) := by
  have timed : ∃ closures, (if ctrl.timeoutMs = -1 then broker else { broker with
      reactor := broker.reactor.runClosureAt (oracle.now + ctrl.timeoutMs.toUInt64)
        ⟨ctrl.eventId, cfg.getWorkerIndex info⟩ }) =
      { broker with reactor := { broker.reactor with closureRunMap := closures } } := by
    split
    · exact ⟨broker.reactor.closureRunMap, rfl⟩
    · exact ⟨_, rfl⟩
  obtain ⟨closures, same⟩ := timed
  refine ⟨closures, ?_⟩
  unfold Broker.sendRequest
  generalize (if ctrl.timeoutMs = -1 then broker else _) = timed at same ⊢
  subst same
  rfl

theorem handleCommand_sound (sound : Sound (ownership broker)) (oracle : Oracle) (sender : Thread)
    (cmd : Command) (alive : (broker.handleCommand cfg oracle sender cmd).1.phase ≠ .faulted) :
    Sound (ownership (broker.handleCommand cfg oracle sender cmd).1) := by
  cases cmd with
  | quit | runClosure | registerSvc => exact sound
  | connect endpoint =>
    simp only [Broker.handleCommand, Broker.handleConnectCommand] at alive ⊢
    split at alive
    · next accepted =>
      rw [if_pos accepted]
      exact sound.connect
    · exact absurd rfl alive
  | bind endpoint =>
    simp only [Broker.handleCommand, Broker.handleBindCommand] at alive ⊢
    split at alive
    · next accepted =>
      rw [if_pos accepted]
      exact sound.bind endpoint
    · exact absurd rfl alive
  | unbind endpoint =>
    simp only [Broker.handleCommand, Broker.handleUnbindCommand]
    split
    · exact sound
    · next socket found =>
      have step := sound.unbind found
      simpa [ownership, Reactor.delSocket] using step
  | request info ctrl data =>
    obtain ⟨closures, same⟩ := sendRequest_timers cfg broker oracle info ctrl data
    simp only [Broker.handleCommand, same] at alive ⊢
    split
    · next missing =>
      rw [missing] at alive
      exact absurd rfl alive
    · exact sound
  | reply info data =>
    simp only [Broker.handleCommand, Broker.forwardTo] at alive ⊢
    split
    · next missing =>
      rw [missing] at alive
      exact absurd rfl alive
    · exact sound

theorem handleSocket_fst (cfg : Config) (broker : Broker) (info : ConnectionInfo)
    (frames : List Frame) :
    ∃ outputs, (broker.handleSocket cfg info frames).1 = broker.emit outputs := by
  unfold Broker.handleSocket
  split
  · exact ⟨_, rfl⟩
  · exact ⟨[], by simp [Broker.emit]⟩

theorem receive_ownership (cfg : Config) (broker : Broker) (callback : SocketCallback)
    (frames : List Frame) :
    ownership (broker.receive cfg callback frames).1 = ownership broker := by
  have emitted : ∀ info data, ownership (broker.handleSocket cfg info data).1 = ownership broker := by
    intro info data
    obtain ⟨outputs, same⟩ := handleSocket_fst cfg broker info data
    rw [same, ownership_emit]
  cases callback with
  | frontend => rfl
  | dealer index =>
    simp only [Broker.receive, Broker.handleDealerSocket]
    split
    · rfl
    · split
      · rfl
      · exact emitted _ _
  | router index =>
    simp only [Broker.receive, Broker.handleRouterSocket]
    split
    · rfl
    · split
      · rfl
      · split
        · exact emitted _ _
        · rfl

theorem afterPoll_ownership (outcome : PollOutcome) :
    ownership (broker.afterPoll outcome).1 = ownership broker := by
  cases outcome with
  | ready flags => exact ownership_setRevents flags
  | error | eterm | efault => rfl

theorem slot_ready {i : Nat} {callback : SocketCallback}
    (slot : broker.reactor.slot i = .ready callback) :
    ∃ socket, (socket, callback) ∈ broker.reactor.sockets := by
  unfold Reactor.slot at slot
  split at slot
  · cases slot
  · split at slot
    · split at slot
      · cases slot
      · next pair found =>
        cases slot
        exact ⟨pair.1, List.mem_of_getElem? found⟩
    · cases slot

theorem Sound.slot_inside (sound : Sound (ownership broker)) (i : Nat) :
    broker.reactor.slot i ≠ .outOfRange := by
  unfold Reactor.slot
  split
  · simp
  · next item found =>
    split
    · split
      · next missing =>
        have inside := (List.getElem?_eq_some_iff.mp found).1
        have shorter : broker.reactor.pollItems.length ≤ broker.reactor.sockets.length := by
          simpa [ownership] using sound.polled.length_le
        rw [List.getElem?_eq_none_iff] at missing
        omega
      · simp
    · simp

theorem Sound.not_closed (sound : Sound (ownership broker)) {pair : Nat × SocketCallback}
    (member : pair ∈ broker.reactor.sockets) : broker.isClosed pair.1 = false := by
  have distinct := sound.distinct
  rw [List.map_append, List.nodup_append] at distinct
  refine List.any_eq_false.mpr (fun other closed same => ?_)
  exact distinct.2.2 _ (List.mem_map_of_mem member) _ (List.mem_map_of_mem closed)
    (of_decide_eq_true same).symm

theorem Sound.socketOf (sound : Sound (ownership broker)) {info : ConnectionInfo} {socket : Nat} :
    broker.socketOf info = some socket ↔
      (socket, if info.isRouter then .router info.index else .dealer info.index) ∈
        broker.reactor.sockets ++ broker.reactor.closed := by
  have flat : ∀ table : List (Option Nat),
      (table[info.index]?).join = some socket ↔ table[info.index]? = some (some socket) := by
    intro table
    rw [Option.join_eq_some_iff]
  unfold Broker.socketOf
  split
  · rw [flat]
    exact sound.routers _ _
  · rw [flat]
    exact sound.dealers _ _

theorem Sound.legal (sound : Sound (ownership broker)) (info : ConnectionInfo) :
    broker.isConnectionInfoLegal info = true ↔ ∃ socket, broker.socketOf info = some socket := by
  unfold Broker.isConnectionInfoLegal Broker.socketOf
  split
  · simp only [Option.join_eq_some_iff]
    exact sound.routerTable.legal
  · simp only [Option.join_eq_some_iff]
    exact sound.dealerTable.legal

theorem Sound.illegal (sound : Sound (ownership broker)) {info : ConnectionInfo}
    (illegal : ¬ broker.isConnectionInfoLegal info = true) : broker.socketOf info = none :=
  Option.eq_none_iff_forall_ne_some.mpr (fun socket found =>
    illegal ((sound.legal info).mpr ⟨socket, found⟩))

theorem Sound.receive_cases (sound : Sound (ownership broker)) (cfg : Config)
    (frames : List Frame) {i : Nat} {callback : SocketCallback} (slot : broker.reactor.slot i = .ready callback)
    (network : callback ≠ .frontend) :
    (∃ info data, broker.receive cfg callback frames = broker.handleSocket cfg info data) ∨
      broker.receive cfg callback frames = (broker, []) := by
  obtain ⟨socket, member⟩ := slot_ready slot
  have live := sound.not_closed member
  cases callback with
  | frontend => exact absurd rfl network
  | dealer index =>
    have found : broker.socketOf (.dealer index) = some socket :=
      sound.socketOf.mpr (List.mem_append_left _ member)
    simp only [Broker.receive, found, live]
    exact .inl ⟨_, _, rfl⟩
  | router index =>
    have found : broker.socketOf (.router index []) = some socket :=
      sound.socketOf.mpr (List.mem_append_left _ member)
    simp only [Broker.receive, found, live, Broker.handleRouterSocket]
    split
    · next yes => cases yes
    · split
      · exact .inl ⟨_, _, rfl⟩
      · exact .inr rfl

theorem Sound.loopTop_cases (sound : Sound (ownership broker)) :
    broker.loopTop = ({ broker with phase := .exited }, []) ∧ broker.reactor.shouldQuit = true ∨
    broker.loopTop = ({ broker with phase := .timers }, []) ∧ broker.reactor.shouldQuit = false ∧
      broker.reactor.delSockets = [] ∨
    broker.reactor.shouldQuit = false ∧ ∃ rebuilt removed ran,
      Rebuilt broker.reactor rebuilt removed ran ∧
      broker.loopTop = ({ broker with reactor := rebuilt, phase := .timers }.emit
        (ran.map (fun sender => .reply sender .unbound)),
        removed.map (fun pair => .socketClosed pair.1)) := by
  unfold Broker.loopTop
  split
  · next quit => exact .inl ⟨rfl, quit⟩
  · next go =>
    rw [Bool.not_eq_true] at go
    split
    · obtain ⟨rebuilt, removed, ran, same, spec⟩ := rebuildPollItems_rebuilt sound.marked_ahead
      refine .inr (.inr ⟨go, rebuilt, removed, ran, spec, ?_⟩)
      simp only [same, spec.closed, List.drop_left]
    · next clean =>
      rw [Bool.not_eq_true] at clean
      have unmarked := sound.clean clean
      exact .inr (.inl ⟨rfl, go, List.map_eq_nil_iff.mp unmarked⟩)

theorem loopTop_sound (sound : Sound (ownership broker)) : Sound (ownership broker.loopTop.1) := by
  rcases sound.loopTop_cases with ⟨same, _⟩ | ⟨same, _⟩ | ⟨_, rebuilt, removed, ran, spec, same⟩
  · rw [same]
    exact sound
  · rw [same]
    exact sound
  · rw [same]
    exact sound.rebuild spec

end Handlers

variable {cfg : Config} {process after : Process} {events emitted : List Event}
  {allowed : Process → Action → Prop}

theorem perform_broker (process : Process) (output : Output) :
    (process.perform output).1.broker = process.broker ∨
      (process.perform output).1.broker = { process.broker with phase := .faulted } := by
  cases output with
  | push | reply => exact .inl rfl
  | send info socket frames cause =>
    simp only [Process.perform, Broker.fault]
    split
    · exact .inr rfl
    · exact .inl rfl

theorem sound_of_run (run : Run (machine cfg) allowed events process)
    (alive : process.broker.phase ≠ .faulted) : Sound (ownership process.broker) := by
  refine Steps.invariant
    (fun _ process => process.broker.phase ≠ .faulted → Sound (ownership process.broker))
    ?_ ?_ run alive
  · exact fun _ => .start
  · intro events process action emitted after _ before _ fired alive
    cases step_move fired with
    | thread thread action after emitted running move =>
      rw [(threadMove_frame move).1] at alive ⊢
      exact before alive
    | loopTop phase performed => exact loopTop_sound (before (by simp [phase]))
    | timers now phase performed => exact before (by simp [phase])
    | poll outcome phase performed =>
      rw [afterPoll_ownership]
      exact before (by simp [phase])
    | finished input i phase | quiet input i phase => exact before (by simp [phase])
    | outOfRange input i phase performed slot => exact absurd rfl alive
    | command i sender oracle cmd rest phase performed slot unread result same =>
      subst same
      have books : Sound (ownership { process.broker with phase := .dispatch (i + 1) }) :=
        before (by simp [phase])
      exact handleCommand_sound books oracle sender cmd alive
    | message i callback frames phase performed slot network nonempty result same =>
      subst same
      rw [receive_ownership]
      exact before (by simp [phase])
    | flush output rest live unperformed =>
      rcases perform_broker (process.setOutbox rest) output with same | same
      · rw [same]
        exact before live
      · exact absurd (by rw [same]) alive
    | worker | release | joinBroker | joinWorkers => exact before alive

end Rpcz.BrokerSockets
