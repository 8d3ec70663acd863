import Mathlib.Logic.Function.Basic
import Mathlib.Data.List.Nodup

/-!
Servers that record their endpoints, over a directory that is keyed by the
endpoint alone. An endpoint may be recorded by several servers; the directory
answers for all of them with the socket of the last bind. If no bind is served
for an endpoint that still has an entry, every entry belongs to the one server
that holds the endpoint, and destroying a server deletes exactly its sockets.
-/

namespace Rpcz.EndpointRegistry

inductive Stage (Endpoint Server : Type) where
  | away
  | binding (owner : Option Server) (endpoint : Endpoint)
  /-- The socket exists, and its owner has yet to be told. -/
  | bound (owner : Option Server) (index : Nat)
  | destroying (server : Server) (remaining : List Endpoint)
  | asking (server : Server) (endpoint : Endpoint) (remaining : List Endpoint)
  | deleting (server : Server) (socket : Nat) (remaining : List Endpoint)
  /-- The unbind found no entry. -/
  | lost (server : Server)

inductive Life (Endpoint : Type) where
  | absent
  | alive (endpoints : List Endpoint)
  | destroyed

namespace Stage
variable {Endpoint Server : Type}

def destroys : Stage Endpoint Server → Option Server
  | .destroying server _ | .asking server _ _ | .deleting server _ _ | .lost server => some server
  | _ => none

def pending : Stage Endpoint Server → List Endpoint
  | .destroying _ remaining | .deleting _ _ remaining => remaining
  | .asking _ endpoint remaining => endpoint :: remaining
  | _ => []

def awaited : Stage Endpoint Server → Option (Server × Endpoint)
  | .binding (some server) endpoint => some (server, endpoint)
  | _ => none

def carried : Stage Endpoint Server → Option (Option Server × Nat)
  | .bound owner index => some (owner, index)
  | _ => none

def uses : Stage Endpoint Server → Option Server
  | .binding owner _ | .bound owner _ => owner
  | stage => stage.destroys

end Stage

structure Registry (Agent Endpoint Server : Type) where
  stages : Agent → Stage Endpoint Server
  servers : Server → Life Endpoint
  /-- The owner of each router, once it is told. -/
  owners : Nat → Option (Option Server)
  directory : Endpoint → Option Nat
  /-- The sockets of the routers created so far. -/
  routers : Nat → Option Nat
  count : Nat
  marked : List Nat
  closed : Nat → Bool

variable {Agent Endpoint Server : Type}

/-- Within a call an agent leaves its server or stays, and gives up endpoints. -/
structure Stage.Evolves (stage later : Stage Endpoint Server) : Prop where
  uses : later.uses = none ∨ later.uses = stage.uses
  destroys : later.destroys = none ∨ later.destroys = stage.destroys
  pending : later.pending.Sublist stage.pending
  binding : ∀ server endpoint, later = .binding (some server) endpoint → stage = later

theorem Stage.Evolves.refl (stage : Stage Endpoint Server) : stage.Evolves stage :=
  ⟨.inr rfl, .inr rfl, List.Sublist.refl _, fun _ _ _ => rfl⟩

theorem Stage.uses_of_destroys {stage : Stage Endpoint Server} {server : Server}
    (inside : stage.destroys = some server) : stage.uses = some server := by
  cases stage with
  | away | binding | bound => cases inside
  | _ => exact inside

theorem evolves_update [DecidableEq Agent] {stages : Agent → Stage Endpoint Server} {agent : Agent}
    {stage : Stage Endpoint Server} (evolves : (stages agent).Evolves stage) (other : Agent) :
    (stages other).Evolves (Function.update stages agent stage other) := by
  by_cases here : other = agent
  · subst here
    rw [Function.update_self]
    exact evolves
  · rw [Function.update_of_ne here]
    exact .refl _

namespace Registry

/-- No server is used while it is destroyed, and no bind is served for an
endpoint that has an entry. -/
inductive Step [DecidableEq Agent] [DecidableEq Endpoint] [DecidableEq Server]
    (r : Registry Agent Endpoint Server) : Registry Agent Endpoint Server → Prop where
  | newServer (server : Server) (absent : r.servers server = .absent) :
      Step r { r with servers := Function.update r.servers server (.alive []) }
  | bind (agent : Agent) (endpoint : Endpoint) (idle : r.stages agent = .away) :
      Step r { r with stages := Function.update r.stages agent (.binding none endpoint) }
  | record (agent : Agent) (server : Server) (endpoint : Endpoint) (endpoints : List Endpoint)
      (idle : r.stages agent = .away) (alive : r.servers server = .alive endpoints)
      (fresh : endpoint ∉ endpoints) (free : ∀ other, (r.stages other).destroys ≠ some server) :
      Step r { r with
        servers := Function.update r.servers server (.alive (endpoints ++ [endpoint]))
        stages := Function.update r.stages agent (.binding (some server) endpoint) }
  | create (agent : Agent) (owner : Option Server) (endpoint : Endpoint) (socket : Nat)
      (waiting : r.stages agent = .binding owner endpoint)
      (unbound : r.directory endpoint = none) :
      Step r { r with
        stages := Function.update r.stages agent (.bound owner r.count)
        directory := Function.update r.directory endpoint (some socket)
        routers := Function.update r.routers r.count (some socket)
        count := r.count + 1 }
  | insert (agent : Agent) (owner : Option Server) (index : Nat)
      (inside : r.stages agent = .bound owner index) :
      Step r { r with
        stages := Function.update r.stages agent .away
        owners := Function.update r.owners index (some owner) }
  | destroy (agent : Agent) (server : Server) (endpoints : List Endpoint)
      (idle : r.stages agent = .away) (alive : r.servers server = .alive endpoints)
      (free : ∀ other, (r.stages other).uses ≠ some server) :
      Step r { r with stages := Function.update r.stages agent (.destroying server endpoints) }
  | ask (agent : Agent) (server : Server) (endpoint : Endpoint) (remaining : List Endpoint)
      (inside : r.stages agent = .destroying server (endpoint :: remaining)) :
      Step r { r with
        stages := Function.update r.stages agent (.asking server endpoint remaining) }
  | mark (agent : Agent) (server : Server) (endpoint : Endpoint) (remaining : List Endpoint)
      (socket : Nat) (inside : r.stages agent = .asking server endpoint remaining)
      (found : r.directory endpoint = some socket) :
      Step r { r with
        stages := Function.update r.stages agent (.deleting server socket remaining)
        directory := Function.update r.directory endpoint none
        marked := r.marked ++ [socket] }
  | miss (agent : Agent) (server : Server) (endpoint : Endpoint) (remaining : List Endpoint)
      (inside : r.stages agent = .asking server endpoint remaining)
      (missing : r.directory endpoint = none) :
      Step r { r with stages := Function.update r.stages agent (.lost server) }
  | unbind (endpoint : Endpoint) (socket : Nat) (found : r.directory endpoint = some socket)
      (unrecorded : ∀ server endpoints, r.servers server = .alive endpoints → endpoint ∉ endpoints) :
      Step r { r with
        directory := Function.update r.directory endpoint none
        marked := r.marked ++ [socket] }
  | delete (stages : Agent → Stage Endpoint Server) (closed : Nat → Bool)
      (moved : ∀ agent, stages agent = r.stages agent ∨ ∃ server socket remaining,
        r.stages agent = .deleting server socket remaining ∧
          stages agent = .destroying server remaining ∧ closed socket = true)
      (kept : ∀ socket, r.closed socket = true → closed socket = true)
      (gone : ∀ socket ∈ r.marked, closed socket = true) :
      Step r { r with stages := stages, closed := closed, marked := [] }
  | finish (agent : Agent) (server : Server) (inside : r.stages agent = .destroying server []) :
      Step r { r with
        stages := Function.update r.stages agent .away
        servers := Function.update r.servers server .destroyed }

variable {r next : Registry Agent Endpoint Server}

structure Calls (r : Registry Agent Endpoint Server) : Prop where
  distinct : ∀ server endpoints, r.servers server = .alive endpoints → endpoints.Nodup
  inUse : ∀ agent server, (r.stages agent).uses = some server →
    ∃ endpoints, r.servers server = .alive endpoints
  recorded : ∀ agent server endpoint endpoints, r.stages agent = .binding (some server) endpoint →
    r.servers server = .alive endpoints → endpoint ∈ endpoints
  oneBinder : ∀ agent other server endpoint, r.stages agent = .binding (some server) endpoint →
    r.stages other = .binding (some server) endpoint → agent = other
  alone : ∀ agent other server, (r.stages agent).destroys = some server →
    (r.stages other).uses = some server → other = agent
  pendingDistinct : ∀ agent, (r.stages agent).pending.Nodup
  pendingRecorded : ∀ agent server endpoint endpoints, (r.stages agent).destroys = some server →
    endpoint ∈ (r.stages agent).pending → r.servers server = .alive endpoints →
    endpoint ∈ endpoints

theorem Calls.evolve (calls : Calls r) (servers : next.servers = r.servers)
    (evolves : ∀ agent, (r.stages agent).Evolves (next.stages agent)) : Calls next where
  distinct := by
    rw [servers]
    exact calls.distinct
  inUse := by
    intro agent server inside
    rw [servers]
    refine calls.inUse agent server ?_
    rcases (evolves agent).uses with left | same
    · rw [left] at inside
      cases inside
    · rw [← same, inside]
  recorded := by
    intro agent server endpoint endpoints waiting
    rw [servers]
    exact calls.recorded agent server endpoint endpoints
      (((evolves agent).binding _ _ waiting).trans waiting)
  oneBinder := by
    intro agent other server endpoint first second
    exact calls.oneBinder agent other server endpoint
      (((evolves agent).binding _ _ first).trans first)
      (((evolves other).binding _ _ second).trans second)
  alone := by
    intro agent other server destroying inside
    have before : (r.stages agent).destroys = some server := by
      rcases (evolves agent).destroys with left | same
      · rw [left] at destroying
        cases destroying
      · rw [← same, destroying]
    refine calls.alone agent other server before ?_
    rcases (evolves other).uses with left | same
    · rw [left] at inside
      cases inside
    · rw [← same, inside]
  pendingDistinct := fun agent => (calls.pendingDistinct agent).sublist (evolves agent).pending
  pendingRecorded := by
    intro agent server endpoint endpoints destroying member
    rw [servers]
    have before : (r.stages agent).destroys = some server := by
      rcases (evolves agent).destroys with left | same
      · rw [left] at destroying
        cases destroying
      · rw [← same, destroying]
    exact calls.pendingRecorded agent server endpoint endpoints before
      ((evolves agent).pending.subset member)

/-- The server recorded the endpoint, its bind was served, and no destructor has
come past it. -/
structure Holds (r : Registry Agent Endpoint Server) (server : Server) (endpoint : Endpoint) :
    Prop where
  recorded : ∃ endpoints, r.servers server = .alive endpoints ∧ endpoint ∈ endpoints
  served : ∀ agent, (r.stages agent).awaited ≠ some (server, endpoint)
  kept : ∀ agent, (r.stages agent).destroys = some server → endpoint ∈ (r.stages agent).pending

/-- The router was made for a bind of the server. -/
def Owns (r : Registry Agent Endpoint Server) (server : Server) (index : Nat) : Prop :=
  r.owners index = some (some server) ∨
    ∃ agent, (r.stages agent).carried = some (some server, index)

structure Indices (r : Registry Agent Endpoint Server) : Prop where
  created : ∀ index, r.routers index ≠ none → index < r.count
  told : ∀ index, r.owners index ≠ none → index < r.count
  travelling : ∀ agent owner index, (r.stages agent).carried = some (owner, index) →
    index < r.count ∧ r.owners index = none
  oneTold : ∀ agent other owner another index, (r.stages agent).carried = some (owner, index) →
    (r.stages other).carried = some (another, index) → agent = other

/-- The destructor has come to the socket. -/
def Leaving (r : Registry Agent Endpoint Server) (server : Server) (socket : Nat) : Prop :=
  (∃ agent, (r.stages agent).destroys = some server ∧
      (r.closed socket = true ∨ ∃ remaining, r.stages agent = .deleting server socket remaining)) ∨
    r.servers server = .destroyed ∧ r.closed socket = true

/-- Every socket has one entry until it is to be deleted, and it is behind an
endpoint its server holds until the destructor comes to it. -/
structure Holdings (r : Registry Agent Endpoint Server) : Prop where
  entry : ∀ index socket, r.routers index = some socket →
    r.closed socket = true ∨ socket ∈ r.marked ∨ ∃ endpoint, r.directory endpoint = some socket
  held : ∀ server endpoint, Holds r server endpoint →
    ∃ index socket, r.directory endpoint = some socket ∧ r.routers index = some socket ∧
      Owns r server index
  single : ∀ server other endpoint, Holds r server endpoint → Holds r other endpoint →
    server = other
  owned : ∀ server index, Owns r server index → ∃ socket, r.routers index = some socket ∧
    ((∃ endpoint, Holds r server endpoint ∧ r.directory endpoint = some socket) ∨
      Leaving r server socket)
  unlost : ∀ agent server, r.stages agent ≠ .lost server

theorem Holdings.keep (holdings : Holdings r)
    (holds : ∀ server endpoint, Holds next server endpoint ↔ Holds r server endpoint)
    (owns : ∀ server index, Owns next server index ↔ Owns r server index)
    (routers : next.routers = r.routers)
    (directory : ∀ server endpoint, Holds r server endpoint →
      next.directory endpoint = r.directory endpoint)
    (leaving : ∀ server socket, Leaving r server socket → Leaving next server socket)
    (entry : ∀ index socket, r.routers index = some socket → next.closed socket = true ∨
      socket ∈ next.marked ∨ ∃ endpoint, next.directory endpoint = some socket)
    (unlost : ∀ agent server, next.stages agent ≠ .lost server) : Holdings next where
  entry := by
    rw [routers]
    exact entry
  held := by
    intro server endpoint holding
    have before := (holds server endpoint).mp holding
    obtain ⟨index, socket, found, made, owned⟩ := holdings.held server endpoint before
    exact ⟨index, socket, by rw [directory server endpoint before, found], by rw [routers, made],
      (owns server index).mpr owned⟩
  single := by
    intro server other endpoint first second
    exact holdings.single server other endpoint ((holds server endpoint).mp first)
      ((holds other endpoint).mp second)
  owned := by
    intro server index owned
    obtain ⟨socket, made, account⟩ := holdings.owned server index ((owns server index).mp owned)
    refine ⟨socket, by rw [routers, made], ?_⟩
    rcases account with ⟨endpoint, holding, found⟩ | gone
    · exact .inl ⟨endpoint, (holds server endpoint).mpr holding,
        by rw [directory server endpoint holding, found]⟩
    · exact .inr (leaving server socket gone)
  unlost := unlost

structure Alike (stage later : Stage Endpoint Server) : Prop where
  awaited : later.awaited = stage.awaited
  destroys : later.destroys = stage.destroys
  pending : later.pending = stage.pending

theorem holds_alike (servers : next.servers = r.servers)
    (alike : ∀ agent, Alike (r.stages agent) (next.stages agent)) (server : Server)
    (endpoint : Endpoint) : Holds next server endpoint ↔ Holds r server endpoint := by
  constructor
  · rintro ⟨recorded, served, kept⟩
    refine ⟨servers ▸ recorded, fun agent => ?_, fun agent destroying => ?_⟩
    · rw [← (alike agent).awaited]
      exact served agent
    · rw [← (alike agent).destroys] at destroying
      rw [← (alike agent).pending]
      exact kept agent destroying
  · rintro ⟨recorded, served, kept⟩
    refine ⟨servers ▸ recorded, fun agent => ?_, fun agent destroying => ?_⟩
    · rw [(alike agent).awaited]
      exact served agent
    · rw [(alike agent).destroys] at destroying
      rw [(alike agent).pending]
      exact kept agent destroying

theorem owns_alike (owners : next.owners = r.owners)
    (carried : ∀ agent, (next.stages agent).carried = (r.stages agent).carried) (server : Server)
    (index : Nat) : Owns next server index ↔ Owns r server index := by
  unfold Owns
  rw [owners]
  exact or_congr_right (exists_congr (fun agent => by rw [carried agent]))

theorem Stage.binding_of_awaited {stage : Stage Endpoint Server} {server : Server}
    {endpoint : Endpoint} (waiting : stage.awaited = some (server, endpoint)) :
    stage = .binding (some server) endpoint := by
  cases stage with
  | binding owner name =>
    cases owner with
    | none => cases waiting
    | some owner =>
      simp only [Stage.awaited, Option.some.injEq, Prod.mk.injEq] at waiting
      rw [waiting.1, waiting.2]
  | _ => cases waiting

theorem Stage.uses_of_carried {stage : Stage Endpoint Server} {server : Server} {index : Nat}
    (carrying : stage.carried = some (some server, index)) : stage.uses = some server := by
  cases stage with
  | bound owner other =>
    simp only [Stage.carried, Option.some.injEq, Prod.mk.injEq] at carrying
    exact carrying.1
  | _ => cases carrying

theorem Calls.unawaited (calls : Calls r) {agent other : Agent} {server : Server}
    {endpoint : Endpoint} (destroying : (r.stages agent).destroys = some server)
    (waiting : (r.stages other).awaited = some (server, endpoint)) : False := by
  have binding := Stage.binding_of_awaited waiting
  have same := calls.alone agent other server destroying (by rw [binding]; rfl)
  rw [← same, binding] at destroying
  cases destroying

theorem holds_pending (calls : Calls r) (agent : Agent) {server : Server} {endpoint : Endpoint}
    (destroying : (r.stages agent).destroys = some server)
    (member : endpoint ∈ (r.stages agent).pending) : Holds r server endpoint := by
  obtain ⟨endpoints, alive⟩ := calls.inUse agent server (Stage.uses_of_destroys destroying)
  refine ⟨⟨endpoints, alive, calls.pendingRecorded agent server endpoint endpoints destroying member
    alive⟩, fun other waiting => calls.unawaited destroying waiting, fun other also => ?_⟩
  rw [calls.alone agent other server destroying (Stage.uses_of_destroys also)]
  exact member

theorem Holdings.entry_marked [DecidableEq Endpoint] (holdings : Holdings r) {endpoint : Endpoint} {socket : Nat}
    (found : r.directory endpoint = some socket) (index other : Nat)
    (made : r.routers index = some other) : r.closed other = true ∨ other ∈ r.marked ++ [socket] ∨
      ∃ name, Function.update r.directory endpoint none name = some other := by
  rcases holdings.entry index other made with closed | marked | ⟨name, listed⟩
  · exact .inl closed
  · exact .inr (.inl (List.mem_append_left _ marked))
  · by_cases here : name = endpoint
    · subst here
      rw [found, Option.some.injEq] at listed
      exact .inr (.inl (by simp [listed]))
    · exact .inr (.inr ⟨name, by rw [Function.update_of_ne here, listed]⟩)

theorem Holdings.unbind [DecidableEq Endpoint] (holdings : Holdings r) {endpoint : Endpoint} {socket : Nat}
    (found : r.directory endpoint = some socket)
    (unrecorded : ∀ server endpoints, r.servers server = .alive endpoints → endpoint ∉ endpoints) :
    Holdings { r with
      directory := Function.update r.directory endpoint none
      marked := r.marked ++ [socket] } := by
  refine holdings.keep (holds_alike rfl (fun _ => ⟨rfl, rfl, rfl⟩)) (fun _ _ => Iff.rfl) rfl
    (fun server other holds => ?_) (fun _ _ leaving => leaving) (holdings.entry_marked found)
    holdings.unlost
  obtain ⟨endpoints, alive, member⟩ := holds.recorded
  have apart : other ≠ endpoint := by
    rintro rfl
    exact unrecorded server endpoints alive member
  exact Function.update_of_ne apart ..

theorem Holdings.delete (holdings : Holdings r) {stages : Agent → Stage Endpoint Server}
    {closed : Nat → Bool}
    (moved : ∀ agent, stages agent = r.stages agent ∨ ∃ server socket remaining,
      r.stages agent = .deleting server socket remaining ∧
        stages agent = .destroying server remaining ∧ closed socket = true)
    (kept : ∀ socket, r.closed socket = true → closed socket = true)
    (gone : ∀ socket ∈ r.marked, closed socket = true) :
    Holdings { r with stages := stages, closed := closed, marked := [] } := by
  have alike : ∀ agent, Alike (r.stages agent) (stages agent) ∧
      (stages agent).carried = (r.stages agent).carried := by
    intro agent
    rcases moved agent with same | ⟨server, socket, remaining, before, after, _⟩
    · rw [same]
      exact ⟨⟨rfl, rfl, rfl⟩, rfl⟩
    · rw [before, after]
      exact ⟨⟨rfl, rfl, rfl⟩, rfl⟩
  refine holdings.keep (holds_alike rfl (fun agent => (alike agent).1))
    (owns_alike rfl (fun agent => (alike agent).2)) rfl (fun _ _ _ => rfl)
    (fun name socket leaving => ?_) (fun index socket made => ?_) (fun agent server => ?_)
  · rcases leaving with ⟨agent, destroying, left⟩ | ⟨finished, was⟩
    · refine .inl ⟨agent, by simpa only [(alike agent).1.destroys] using destroying, ?_⟩
      rcases left with was | ⟨remaining, deleting⟩
      · exact .inl (kept socket was)
      · rcases moved agent with same | ⟨server, other, rest, before, _, now⟩
        · exact .inr ⟨remaining, same.trans deleting⟩
        · rw [deleting, Stage.deleting.injEq] at before
          exact .inl (before.2.1 ▸ now)
    · exact .inr ⟨finished, kept socket was⟩
  · rcases holdings.entry index socket made with was | marked | found
    · exact .inl (kept socket was)
    · exact .inl (gone socket marked)
    · exact .inr (.inr found)
  · rcases moved agent with same | ⟨_, _, _, _, after, _⟩
    · simpa only [same] using holdings.unlost agent server
    · simp [after]

structure Consistent (r : Registry Agent Endpoint Server) : Prop where
  calls : Calls r
  indices : Indices r
  holdings : Holdings r

theorem Consistent.start (away : ∀ agent, r.stages agent = .away)
    (absent : ∀ server, r.servers server = .absent) (owners : ∀ index, r.owners index = none)
    (routers : ∀ index, r.routers index = none) : Consistent r where
  calls := by constructor <;> simp [away, absent, Stage.uses, Stage.destroys, Stage.pending]
  indices := by constructor <;> simp [away, owners, routers, Stage.carried]
  holdings := by
    have unheld : ∀ server endpoint, ¬ Holds r server endpoint := by
      intro server endpoint holds
      obtain ⟨endpoints, alive, _⟩ := holds.recorded
      rw [absent] at alive
      cases alive
    have unowned : ∀ server index, ¬ Owns r server index := by
      rintro server index (told | ⟨agent, carrying⟩)
      · rw [owners] at told
        cases told
      · rw [away] at carrying
        cases carrying
    exact
    { entry := by simp [routers]
      held := fun server endpoint holds => absurd holds (unheld server endpoint)
      single := fun server _ endpoint holds => absurd holds (unheld server endpoint)
      owned := fun server index owned => absurd owned (unowned server index)
      unlost := by simp [away] }

section Steps
variable [DecidableEq Agent]

theorem alike_update {agent : Agent} {stage : Stage Endpoint Server}
    (alike : Alike (r.stages agent) stage) (other : Agent) :
    Alike (r.stages other) (Function.update r.stages agent stage other) := by
  by_cases here : other = agent
  · subst here
    rw [Function.update_self]
    exact alike
  · rw [Function.update_of_ne here]
    exact ⟨rfl, rfl, rfl⟩

/-- The other agents neither wait for the bind nor have given the endpoint up. -/
def Beside (stages : Agent → Stage Endpoint Server) (agent : Agent) (server : Server)
    (endpoint : Endpoint) : Prop :=
  ∀ other ≠ agent, (stages other).awaited ≠ some (server, endpoint) ∧
    ((stages other).destroys = some server → endpoint ∈ (stages other).pending)

/-- What it takes to hold an endpoint, with one agent told apart. -/
theorem holds_apart {r : Registry Agent Endpoint Server} (agent : Agent)
    {stage : Stage Endpoint Server} {stages : Agent → Stage Endpoint Server}
    (here : r.stages = Function.update stages agent stage) (server : Server) (endpoint : Endpoint) :
    Holds r server endpoint ↔
      ((∃ endpoints, r.servers server = .alive endpoints ∧ endpoint ∈ endpoints) ∧
        Beside stages agent server endpoint) ∧
      stage.awaited ≠ some (server, endpoint) ∧
      (stage.destroys = some server → endpoint ∈ stage.pending) := by
  have served := Function.forall_update_iff stages (a := agent) (b := stage)
    (fun _ stage => stage.awaited ≠ some (server, endpoint))
  have kept := Function.forall_update_iff stages (a := agent) (b := stage)
    (fun _ stage => stage.destroys = some server → endpoint ∈ stage.pending)
  rw [← here] at served kept
  constructor
  · intro holds
    have first := served.mp holds.served
    have second := kept.mp holds.kept
    exact ⟨⟨holds.recorded, fun other apart => ⟨first.2 other apart, second.2 other apart⟩⟩,
      first.1, second.1⟩
  · rintro ⟨⟨recorded, others⟩, awaited, pending⟩
    exact ⟨recorded, served.mpr ⟨awaited, fun other apart => (others other apart).1⟩,
      kept.mpr ⟨pending, fun other apart => (others other apart).2⟩⟩

theorem holds_self (r : Registry Agent Endpoint Server) (agent : Agent) (server : Server)
    (endpoint : Endpoint) : Holds r server endpoint ↔
      ((∃ endpoints, r.servers server = .alive endpoints ∧ endpoint ∈ endpoints) ∧
        Beside r.stages agent server endpoint) ∧
      (r.stages agent).awaited ≠ some (server, endpoint) ∧
      ((r.stages agent).destroys = some server → endpoint ∈ (r.stages agent).pending) :=
  holds_apart agent (Function.update_eq_self agent r.stages).symm server endpoint

theorem carried_update {agent : Agent} {stage : Stage Endpoint Server}
    (same : stage.carried = (r.stages agent).carried) (other : Agent) :
    (Function.update r.stages agent stage other).carried = (r.stages other).carried := by
  by_cases here : other = agent
  · subst here
    rw [Function.update_self, same]
  · rw [Function.update_of_ne here]

theorem unlost_update (holdings : Holdings r) {agent : Agent} {stage : Stage Endpoint Server}
    (found : ∀ server, stage ≠ .lost server) (other : Agent) (server : Server) :
    Function.update r.stages agent stage other ≠ .lost server := by
  by_cases here : other = agent
  · subst here
    rw [Function.update_self]
    exact found server
  · rw [Function.update_of_ne here]
    exact holdings.unlost other server

theorem leaving_update {agent : Agent} {stage : Stage Endpoint Server}
    (destroys : ∀ server, (r.stages agent).destroys = some server → stage.destroys = some server)
    (still : ∀ server socket remaining, r.stages agent ≠ .deleting server socket remaining)
    (server : Server) (socket : Nat)
    (stages : next.stages = Function.update r.stages agent stage) (servers : next.servers = r.servers)
    (closed : next.closed = r.closed) (leaving : Leaving r server socket) :
    Leaving next server socket := by
  unfold Leaving
  rw [servers, closed, stages]
  rcases leaving with ⟨other, destroying, gone⟩ | finished
  · refine .inl ⟨other, ?_⟩
    by_cases here : other = agent
    · subst here
      rw [Function.update_self]
      refine ⟨destroys server destroying, ?_⟩
      rcases gone with closed | ⟨remaining, deleting⟩
      · exact .inl closed
      · exact absurd deleting (still _ _ _)
    · rw [Function.update_of_ne here]
      exact ⟨destroying, gone⟩
  · exact .inr finished

theorem Holdings.destroy (holdings : Holdings r) {agent : Agent} {server : Server}
    {endpoints : List Endpoint} (idle : r.stages agent = .away)
    (alive : r.servers server = .alive endpoints) :
    Holdings { r with stages := Function.update r.stages agent (.destroying server endpoints) } := by
  refine holdings.keep (fun name endpoint => ?_)
    (owns_alike rfl (carried_update (by rw [idle]; rfl))) rfl (fun _ _ _ => rfl)
    (fun name socket => leaving_update (by simp [idle, Stage.destroys]) (by simp [idle]) name socket
      rfl rfl rfl) holdings.entry (unlost_update holdings (by simp))
  rw [holds_apart agent rfl name endpoint, holds_self r agent name endpoint, idle]
  refine and_congr_right (fun known => ?_)
  have listed : name = server → endpoint ∈ endpoints := by
    rintro rfl
    obtain ⟨names, found, member⟩ := known.1
    rw [alive, Life.alive.injEq] at found
    exact found ▸ member
  constructor
  · exact fun _ => ⟨by simp [Stage.awaited], by simp [Stage.destroys]⟩
  · refine fun _ => ⟨by simp [Stage.awaited], fun destroying => listed ?_⟩
    simpa [Stage.destroys] using destroying.symm

theorem Holdings.insert (indices : Indices r) (holdings : Holdings r) {agent : Agent}
    {owner : Option Server} {index : Nat} (inside : r.stages agent = .bound owner index) :
    Holdings { r with
      stages := Function.update r.stages agent .away
      owners := Function.update r.owners index (some owner) } := by
  have here : (r.stages agent).carried = some (owner, index) := by rw [inside]; rfl
  refine holdings.keep
    (holds_alike rfl (alike_update (by rw [inside]; exact ⟨rfl, rfl, rfl⟩)))
    (fun server other => ?_) rfl (fun _ _ _ => rfl)
    (fun name socket => leaving_update (by simp [inside, Stage.destroys]) (by simp [inside]) name
      socket rfl rfl rfl) holdings.entry (unlost_update holdings (by simp))
  simp only [Owns]
  by_cases same : other = index
  · subst same
    rw [Function.update_self, (indices.travelling agent owner other here).2]
    constructor
    · rintro (told | ⟨actor, carrying⟩)
      · simp only [Option.some.injEq] at told
        exact .inr ⟨agent, by rw [here, told]⟩
      · by_cases apart : actor = agent
        · subst apart
          simp [Stage.carried] at carrying
        · rw [Function.update_of_ne apart] at carrying
          exact absurd (indices.oneTold actor agent _ _ _ carrying here) apart
    · rintro (told | ⟨actor, carrying⟩)
      · cases told
      · obtain rfl := indices.oneTold actor agent _ _ _ carrying here
        rw [here, Option.some.injEq, Prod.mk.injEq] at carrying
        exact .inl (by rw [carrying.1])
  · rw [Function.update_of_ne same]
    refine or_congr_right (exists_congr (fun actor => ?_))
    by_cases apart : actor = agent
    · subst apart
      rw [Function.update_self, here]
      simp [Stage.carried, Ne.symm same]
    · rw [Function.update_of_ne apart]

variable [DecidableEq Server]

theorem Holdings.record (holdings : Holdings r) {agent : Agent} {server : Server}
    {endpoint : Endpoint} {endpoints : List Endpoint} (idle : r.stages agent = .away)
    (alive : r.servers server = .alive endpoints) (fresh : endpoint ∉ endpoints) :
    Holdings { r with
      servers := Function.update r.servers server (.alive (endpoints ++ [endpoint]))
      stages := Function.update r.stages agent (.binding (some server) endpoint) } := by
  refine holdings.keep (fun name other => ?_)
    (owns_alike rfl (carried_update (by rw [idle]; rfl))) rfl (fun _ _ _ => rfl)
    (fun name socket leaving => ?_) holdings.entry (unlost_update holdings (by simp))
  · rw [holds_apart agent rfl name other, holds_self r agent name other, idle]
    by_cases here : name = server
    · subst here
      simp only [Function.update_self, alive, Life.alive.injEq, exists_eq_left', List.mem_append,
        List.mem_singleton, Stage.awaited, Stage.destroys, ne_eq, Option.some.injEq, Prod.mk.injEq,
        true_and, reduceCtorEq, false_implies, not_false_eq_true, and_true]
      constructor
      · rintro ⟨⟨old | new, others⟩, apart⟩
        · exact ⟨old, others⟩
        · exact absurd new.symm apart
      · rintro ⟨old, others⟩
        exact ⟨⟨.inl old, others⟩, fun same => fresh (same ▸ old)⟩
    · simp [Function.update_of_ne here, Stage.awaited, Stage.destroys, Ne.symm here]
  · rcases leaving with ⟨other, destroying, gone⟩ | ⟨finished, closed⟩
    · have apart : other ≠ agent := by
        rintro rfl
        rw [idle] at destroying
        cases destroying
      exact .inl ⟨other, by simpa only [Function.update_of_ne apart] using ⟨destroying, gone⟩⟩
    · have apart : name ≠ server := by
        rintro rfl
        rw [alive] at finished
        cases finished
      exact .inr ⟨by simpa only [Function.update_of_ne apart] using finished, closed⟩

theorem Holdings.finish (calls : Calls r) (holdings : Holdings r) {agent : Agent} {server : Server}
    (inside : r.stages agent = .destroying server []) :
    Holdings { r with
      stages := Function.update r.stages agent .away
      servers := Function.update r.servers server .destroyed } := by
  have destroying : (r.stages agent).destroys = some server := by rw [inside]; rfl
  refine holdings.keep (fun name endpoint => ?_)
    (owns_alike rfl (carried_update (by rw [inside]; rfl))) rfl (fun _ _ _ => rfl)
    (fun name socket leaving => ?_) holdings.entry (unlost_update holdings (by simp))
  · rw [holds_apart agent rfl name endpoint, holds_self r agent name endpoint, inside]
    by_cases here : name = server
    · subst here
      simp [Stage.destroys, Stage.pending]
    · simp [Function.update_of_ne here, Stage.awaited, Stage.destroys, Ne.symm here]
  · by_cases here : name = server
    · subst here
      obtain ⟨endpoints, alive⟩ := calls.inUse agent name (Stage.uses_of_destroys destroying)
      rcases leaving with ⟨other, also, gone⟩ | ⟨finished, _⟩
      · obtain rfl := calls.alone agent other name destroying (Stage.uses_of_destroys also)
        rcases gone with closed | ⟨remaining, deleting⟩
        · exact .inr ⟨Function.update_self .., closed⟩
        · rw [inside] at deleting
          cases deleting
      · rw [alive] at finished
        cases finished
    · rcases leaving with ⟨other, also, gone⟩ | ⟨finished, closed⟩
      · have apart : other ≠ agent := by
          rintro rfl
          rw [destroying, Option.some.injEq] at also
          exact here also.symm
        exact .inl ⟨other, by simpa only [Function.update_of_ne apart] using ⟨also, gone⟩⟩
      · exact .inr ⟨by simpa only [Function.update_of_ne here] using finished, closed⟩

variable [DecidableEq Endpoint]

theorem Calls.step (calls : Calls r) (step : Step r next) : Calls next := by
  cases step with
  | bind agent endpoint idle =>
    refine calls.evolve rfl (evolves_update ?_)
    rw [idle]
    exact ⟨.inl rfl, .inl rfl, List.Sublist.refl _, by simp⟩
  | create agent owner endpoint socket waiting unbound =>
    refine calls.evolve rfl (evolves_update ?_)
    rw [waiting]
    exact ⟨.inr rfl, .inl rfl, List.Sublist.refl _, by simp⟩
  | insert agent owner index inside =>
    refine calls.evolve rfl (evolves_update ?_)
    rw [inside]
    exact ⟨.inl rfl, .inl rfl, List.Sublist.refl _, by simp⟩
  | ask agent server endpoint remaining inside =>
    refine calls.evolve rfl (evolves_update ?_)
    rw [inside]
    exact ⟨.inr rfl, .inr rfl, List.Sublist.refl _, by simp⟩
  | mark agent server endpoint remaining socket inside found =>
    refine calls.evolve rfl (evolves_update ?_)
    rw [inside]
    exact ⟨.inr rfl, .inr rfl, List.sublist_cons_self _ _, by simp⟩
  | miss agent server endpoint remaining inside missing =>
    refine calls.evolve rfl (evolves_update ?_)
    rw [inside]
    exact ⟨.inr rfl, .inr rfl, List.nil_sublist _, by simp⟩
  | unbind endpoint socket found unrecorded => exact calls.evolve rfl (fun _ => .refl _)
  | delete stages closed moved kept gone =>
    refine calls.evolve rfl (fun agent => ?_)
    rcases moved agent with same | ⟨server, socket, remaining, before, after, _⟩
    · simp only [same]
      exact .refl _
    · simp only [before, after]
      exact ⟨.inr rfl, .inr rfl, List.Sublist.refl _, by simp⟩
  | newServer server absent =>
    constructor <;> simp only [Function.update_apply] <;>
      grind [Calls, Stage.uses, Stage.destroys, Stage.pending, Stage.uses_of_destroys]
  | record agent server endpoint endpoints idle alive fresh free =>
    constructor <;> simp only [Function.update_apply] <;>
      grind [Calls, Stage.uses, Stage.destroys, Stage.pending, Stage.uses_of_destroys]
  | destroy agent server endpoints idle alive free =>
    constructor <;> simp only [Function.update_apply] <;>
      grind [Calls, Stage.uses, Stage.destroys, Stage.pending, Stage.uses_of_destroys]
  | finish agent server inside =>
    constructor <;> simp only [Function.update_apply] <;>
      grind [Calls, Stage.uses, Stage.destroys, Stage.pending, Stage.uses_of_destroys]

theorem Indices.step (indices : Indices r) (step : Step r next) : Indices next := by
  cases step with
  | newServer | unbind => exact ⟨indices.1, indices.2, indices.3, indices.4⟩
  | delete stages closed moved kept gone =>
    have same : ∀ agent, (stages agent).carried = (r.stages agent).carried := by
      intro agent
      rcases moved agent with same | ⟨server, socket, remaining, before, after, _⟩
      · rw [same]
      · rw [before, after]
        rfl
    exact
    { created := indices.created
      told := indices.told
      travelling := by
        intro agent owner index inside
        exact indices.travelling agent owner index (same agent ▸ inside)
      oneTold := by
        intro agent other owner another index first second
        exact indices.oneTold agent other owner another index (same agent ▸ first)
          (same other ▸ second) }
  | insert agent owner index inside =>
    have here := indices.travelling agent owner index (by rw [inside]; rfl)
    have alone := indices.oneTold agent
    constructor <;> simp only [Function.update_apply] <;> grind [Indices, Stage.carried]
  | _ => constructor <;> simp only [Function.update_apply] <;> grind [Indices, Stage.carried]

theorem Holdings.create (calls : Calls r) (indices : Indices r) (holdings : Holdings r)
    {agent : Agent} {owner : Option Server} {endpoint : Endpoint} (socket : Nat)
    (waiting : r.stages agent = .binding owner endpoint) (unbound : r.directory endpoint = none) :
    Holdings { r with
      stages := Function.update r.stages agent (.bound owner r.count)
      directory := Function.update r.directory endpoint (some socket)
      routers := Function.update r.routers r.count (some socket)
      count := r.count + 1 } := by
  generalize grown : ({ r with
      stages := Function.update r.stages agent (.bound owner r.count)
      directory := Function.update r.directory endpoint (some socket)
      routers := Function.update r.routers r.count (some socket)
      count := r.count + 1 } : Registry Agent Endpoint Server) = next
  have stages : next.stages = Function.update r.stages agent (.bound owner r.count) := by rw [← grown]
  have directory : next.directory = Function.update r.directory endpoint (some socket) := by
    rw [← grown]
  have routers : next.routers = Function.update r.routers r.count (some socket) := by rw [← grown]
  have servers : next.servers = r.servers := by rw [← grown]
  have owners : next.owners = r.owners := by rw [← grown]
  have holds : ∀ name other, Holds next name other ↔
      Holds r name other ∨ owner = some name ∧ other = endpoint := by
    intro name other
    rw [holds_apart agent stages name other, holds_self r agent name other, waiting, servers]
    constructor
    · rintro ⟨known, _⟩
      by_cases mine : owner = some name ∧ other = endpoint
      · exact .inr mine
      · refine .inl ⟨known, fun awaited => mine ?_, by simp [Stage.destroys]⟩
        cases owner with
        | none => cases awaited
        | some owner =>
          simp only [Stage.awaited, Option.some.injEq, Prod.mk.injEq] at awaited
          exact ⟨by rw [awaited.1], awaited.2.symm⟩
    · rintro (⟨known, _⟩ | ⟨rfl, rfl⟩)
      · exact ⟨known, by simp [Stage.awaited], by simp [Stage.destroys]⟩
      · obtain ⟨endpoints, alive⟩ := calls.inUse agent name (by rw [waiting]; rfl)
        have awaited : (r.stages agent).awaited = some (name, other) := by rw [waiting]; rfl
        refine ⟨⟨⟨endpoints, alive, calls.recorded agent name other endpoints waiting alive⟩,
          fun actor apart => ⟨fun also => apart ?_, fun destroying => ?_⟩⟩, by simp [Stage.awaited],
          by simp [Stage.destroys]⟩
        · exact calls.oneBinder actor agent name other (Stage.binding_of_awaited also) waiting
        · exact absurd awaited (fun _ => calls.unawaited destroying awaited)
  have owns : ∀ name index, Owns next name index ↔
      Owns r name index ∨ owner = some name ∧ index = r.count := by
    intro name index
    simp only [Owns, stages, owners]
    rw [or_assoc]
    refine or_congr_right ⟨?_, ?_⟩
    · rintro ⟨actor, carrying⟩
      by_cases here : actor = agent
      · rw [here, Function.update_self] at carrying
        simp only [Stage.carried, Option.some.injEq, Prod.mk.injEq] at carrying
        exact .inr ⟨carrying.1, carrying.2.symm⟩
      · rw [Function.update_of_ne here] at carrying
        exact .inl ⟨actor, carrying⟩
    · rintro (⟨actor, carrying⟩ | ⟨mine, rfl⟩)
      · have here : actor ≠ agent := by
          rintro rfl
          rw [waiting] at carrying
          cases carrying
        exact ⟨actor, by rw [Function.update_of_ne here, carrying]⟩
      · exact ⟨agent, by rw [Function.update_self, mine]; rfl⟩
  have unheld : ∀ name, ¬ Holds r name endpoint := by
    intro name holding
    obtain ⟨_, _, found, _⟩ := holdings.held name endpoint holding
    rw [unbound] at found
    cases found
  have older : ∀ index other, r.routers index = some other → index ≠ r.count := by
    rintro index other made rfl
    exact Nat.lt_irrefl _ (indices.created r.count (by rw [made]; simp))
  exact
  { entry := by
      intro index other made
      by_cases here : index = r.count
      · rw [routers, here, Function.update_self] at made
        exact .inr (.inr ⟨endpoint, by rw [directory, Function.update_self, made]⟩)
      · rw [routers, Function.update_of_ne here] at made
        rw [← grown]
        rcases holdings.entry index other made with closed | marked | ⟨name, found⟩
        · exact .inl closed
        · exact .inr (.inl marked)
        · have apart : name ≠ endpoint := by
            rintro rfl
            rw [unbound] at found
            cases found
          exact .inr (.inr ⟨name, by simpa only [Function.update_of_ne apart] using found⟩)
    held := by
      intro name other holding
      rcases (holds name other).mp holding with before | ⟨mine, rfl⟩
      · obtain ⟨index, socket, found, made, owned⟩ := holdings.held name other before
        have apart : other ≠ endpoint := fun same => unheld name (same ▸ before)
        refine ⟨index, socket, ?_, ?_, (owns name index).mpr (.inl owned)⟩
        · rw [directory, Function.update_of_ne apart, found]
        · rw [routers, Function.update_of_ne (older index socket made), made]
      · refine ⟨r.count, socket, ?_, ?_, (owns name r.count).mpr (.inr ⟨mine, rfl⟩)⟩
        · rw [directory, Function.update_self]
        · rw [routers, Function.update_self]
    single := by
      intro name another other first second
      rcases (holds name other).mp first with before | ⟨mine, rfl⟩ <;>
        rcases (holds another other).mp second with also | ⟨also, same⟩
      · exact holdings.single name another other before also
      · exact absurd (same ▸ before) (unheld name)
      · exact absurd also (unheld another)
      · rw [mine, Option.some.injEq] at also
        exact also
    owned := by
      intro name index owned
      rcases (owns name index).mp owned with before | ⟨mine, rfl⟩
      · obtain ⟨other, made, account⟩ := holdings.owned name index before
        refine ⟨other, by rw [routers, Function.update_of_ne (older index other made), made], ?_⟩
        rcases account with ⟨listed, holding, found⟩ | leaving
        · have apart : listed ≠ endpoint := fun same => unheld name (same ▸ holding)
          exact .inl ⟨listed, (holds name listed).mpr (.inl holding),
            by rw [directory, Function.update_of_ne apart, found]⟩
        · exact .inr (leaving_update (by simp [waiting, Stage.destroys]) (by simp [waiting]) name
            other stages servers (by rw [← grown]) leaving)
      · exact ⟨socket, by rw [routers, Function.update_self], .inl ⟨endpoint,
          (holds name endpoint).mpr (.inr ⟨mine, rfl⟩), by rw [directory, Function.update_self]⟩⟩
    unlost := by
      rw [stages]
      exact unlost_update holdings (by simp) }

theorem Holdings.mark (calls : Calls r) (holdings : Holdings r) {agent : Agent} {server : Server}
    {endpoint : Endpoint} {remaining : List Endpoint} {socket : Nat}
    (inside : r.stages agent = .asking server endpoint remaining)
    (found : r.directory endpoint = some socket) :
    Holdings { r with
      stages := Function.update r.stages agent (.deleting server socket remaining)
      directory := Function.update r.directory endpoint none
      marked := r.marked ++ [socket] } := by
  generalize left : ({ r with
      stages := Function.update r.stages agent (.deleting server socket remaining)
      directory := Function.update r.directory endpoint none
      marked := r.marked ++ [socket] } : Registry Agent Endpoint Server) = next
  have stages : next.stages =
      Function.update r.stages agent (.deleting server socket remaining) := by rw [← left]
  have directory : next.directory = Function.update r.directory endpoint none := by rw [← left]
  have routers : next.routers = r.routers := by rw [← left]
  have servers : next.servers = r.servers := by rw [← left]
  have distinct := calls.pendingDistinct agent
  rw [inside, Stage.pending, List.nodup_cons] at distinct
  have mine : Holds r server endpoint := holds_pending calls agent (by rw [inside]; rfl)
    (by rw [inside]; exact List.mem_cons_self)
  have holds : ∀ name other, Holds next name other ↔
      Holds r name other ∧ ¬ (name = server ∧ other = endpoint) := by
    intro name other
    rw [holds_apart agent stages name other, holds_self r agent name other, inside, servers]
    simp only [Stage.awaited, Stage.destroys, Stage.pending, Option.some.injEq, List.mem_cons]
    constructor
    · rintro ⟨known, _, kept⟩
      refine ⟨⟨known, by simp, fun same => .inr (kept same)⟩, ?_⟩
      rintro ⟨rfl, rfl⟩
      exact distinct.1 (kept rfl)
    · rintro ⟨⟨known, _, kept⟩, other⟩
      refine ⟨known, by simp, fun same => ?_⟩
      rcases kept same with here | later
      · exact absurd ⟨same.symm, here⟩ other
      · exact later
  have apart : ∀ name other, Holds next name other → other ≠ endpoint := by
    rintro name other holding rfl
    obtain ⟨before, away⟩ := (holds name other).mp holding
    exact away ⟨holdings.single name server other before mine, rfl⟩
  have owns : ∀ name index, Owns next name index ↔ Owns r name index :=
    owns_alike (by rw [← left]) (by
      rw [stages]
      exact carried_update (by rw [inside]; rfl))
  exact
  { entry := by
      intro index other made
      rw [routers] at made
      rw [← left]
      exact holdings.entry_marked found index other made
    held := by
      intro name other holding
      obtain ⟨index, known, listed, made, owned⟩ :=
        holdings.held name other ((holds name other).mp holding).1
      exact ⟨index, known, by rw [directory, Function.update_of_ne (apart name other holding), listed],
        by rw [routers, made], (owns name index).mpr owned⟩
    single := fun name another other first second =>
      holdings.single name another other ((holds name other).mp first).1
        ((holds another other).mp second).1
    owned := by
      intro name index owned
      obtain ⟨known, made, account⟩ := holdings.owned name index ((owns name index).mp owned)
      refine ⟨known, by rw [routers, made], ?_⟩
      rcases account with ⟨listed, holding, entry⟩ | leaving
      · by_cases here : name = server ∧ listed = endpoint
        · obtain ⟨rfl, rfl⟩ := here
          rw [found, Option.some.injEq] at entry
          refine .inr (.inl ⟨agent, ?_, .inr ⟨remaining, ?_⟩⟩)
          · rw [stages, Function.update_self]
            rfl
          · rw [stages, Function.update_self, entry]
        · have still := (holds name listed).mpr ⟨holding, here⟩
          exact .inl ⟨listed, still,
            by rw [directory, Function.update_of_ne (apart name listed still), entry]⟩
      · exact .inr (leaving_update (by simp [inside, Stage.destroys]) (by simp [inside]) name known
          stages servers (by rw [← left]) leaving)
    unlost := by
      rw [stages]
      exact unlost_update holdings (by simp) }

theorem Holdings.step (calls : Calls r) (indices : Indices r) (holdings : Holdings r)
    (step : Step r next) : Holdings next := by
  cases step with
  | newServer server absent =>
    refine holdings.keep (fun name endpoint => ?_) (fun _ _ => Iff.rfl) rfl (fun _ _ _ => rfl)
      (fun name socket leaving => ?_) holdings.entry holdings.unlost
    · by_cases here : name = server
      · subst here
        constructor
        · rintro ⟨⟨endpoints, alive, member⟩, _, _⟩
          simp only [Function.update_self, Life.alive.injEq] at alive
          rw [← alive] at member
          cases member
        · rintro ⟨⟨endpoints, alive, member⟩, _, _⟩
          rw [absent] at alive
          cases alive
      · constructor <;> rintro ⟨recorded, served, kept⟩ <;>
          exact ⟨by simpa [Function.update_of_ne here] using recorded, served, kept⟩
    · rcases leaving with destroying | ⟨finished, closed⟩
      · exact .inl destroying
      · have here : name ≠ server := by
          rintro rfl
          rw [absent] at finished
          cases finished
        exact .inr ⟨by simpa [Function.update_of_ne here] using finished, closed⟩
  | bind agent endpoint idle =>
    exact holdings.keep (holds_alike rfl (alike_update (by rw [idle]; exact ⟨rfl, rfl, rfl⟩)))
      (owns_alike rfl (carried_update (by rw [idle]; rfl))) rfl (fun _ _ _ => rfl)
      (fun server socket => leaving_update (by simp [idle, Stage.destroys]) (by simp [idle]) server
        socket rfl rfl rfl) holdings.entry (unlost_update holdings (by simp))
  | record agent server endpoint endpoints idle alive fresh free =>
    exact holdings.record idle alive fresh
  | create agent owner endpoint socket waiting unbound =>
    exact holdings.create calls indices socket waiting unbound
  | insert agent owner index inside =>
    exact holdings.insert indices inside
  | destroy agent server endpoints idle alive free =>
    exact holdings.destroy idle alive
  | ask agent server endpoint remaining inside =>
    exact holdings.keep (holds_alike rfl (alike_update (by rw [inside]; exact ⟨rfl, rfl, rfl⟩)))
      (owns_alike rfl (carried_update (by rw [inside]; rfl))) rfl (fun _ _ _ => rfl)
      (fun server socket => leaving_update (by simp [inside, Stage.destroys]) (by simp [inside])
        server socket rfl rfl rfl) holdings.entry (unlost_update holdings (by simp))
  | mark agent server endpoint remaining socket inside found =>
    exact holdings.mark calls inside found
  | miss agent server endpoint remaining inside missing =>
    have holding : Holds r server endpoint := holds_pending calls agent (by rw [inside]; rfl)
      (by rw [inside]; exact List.mem_cons_self)
    obtain ⟨_, _, found, _⟩ := holdings.held server endpoint holding
    rw [missing] at found
    cases found
  | unbind endpoint socket found unrecorded =>
    exact holdings.unbind found unrecorded
  | delete stages closed moved kept gone =>
    exact holdings.delete moved kept gone
  | finish agent server inside =>
    exact holdings.finish calls inside

theorem Consistent.step (consistent : Consistent r) (step : Step r next) : Consistent next :=
  ⟨consistent.calls.step step, consistent.indices.step step,
    consistent.holdings.step consistent.calls consistent.indices step⟩

end Steps

theorem Consistent.deleted (consistent : Consistent r) {server : Server} {index : Nat}
    (gone : r.servers server = .destroyed) (told : r.owners index = some (some server)) :
    ∃ socket, r.routers index = some socket ∧ r.closed socket = true := by
  obtain ⟨socket, made, account⟩ := consistent.holdings.owned server index (.inl told)
  refine ⟨socket, made, ?_⟩
  rcases account with ⟨endpoint, holds, _⟩ | ⟨agent, destroying, _⟩ | ⟨_, closed⟩
  · obtain ⟨endpoints, alive, _⟩ := holds.recorded
    rw [gone] at alive
    cases alive
  · obtain ⟨endpoints, alive⟩ := consistent.calls.inUse agent server
      (Stage.uses_of_destroys destroying)
    rw [gone] at alive
    cases alive
  · exact closed

theorem Consistent.kept (consistent : Consistent r) {server : Server} {endpoints : List Endpoint}
    {index : Nat} (alive : r.servers server = .alive endpoints)
    (free : ∀ agent, (r.stages agent).destroys ≠ some server)
    (told : r.owners index = some (some server)) :
    ∃ endpoint ∈ endpoints, ∃ socket, r.directory endpoint = some socket ∧
      r.routers index = some socket := by
  obtain ⟨socket, made, account⟩ := consistent.holdings.owned server index (.inl told)
  rcases account with ⟨endpoint, holds, found⟩ | ⟨agent, destroying, _⟩ | ⟨gone, _⟩
  · obtain ⟨names, alive', member⟩ := holds.recorded
    rw [alive, Life.alive.injEq] at alive'
    exact ⟨endpoint, alive' ▸ member, socket, found, made⟩
  · exact absurd destroying (free agent)
  · rw [alive] at gone
    cases gone

theorem Consistent.recorded (consistent : Consistent r) {server : Server}
    {endpoints : List Endpoint} {endpoint : Endpoint} (alive : r.servers server = .alive endpoints)
    (free : ∀ agent, (r.stages agent).destroys ≠ some server) (member : endpoint ∈ endpoints)
    (served : ∀ agent, r.stages agent ≠ .binding (some server) endpoint) :
    ∃ index socket, r.directory endpoint = some socket ∧ r.routers index = some socket ∧
      Owns r server index :=
  consistent.holdings.held server endpoint ⟨⟨endpoints, alive, member⟩,
    fun agent waiting => served agent (Stage.binding_of_awaited waiting),
    fun agent destroying => absurd destroying (free agent)⟩

theorem Consistent.asking (consistent : Consistent r) {agent : Agent} {server : Server}
    {endpoint : Endpoint} {remaining : List Endpoint}
    (inside : r.stages agent = .asking server endpoint remaining) : r.directory endpoint ≠ none := by
  have holds : Holds r server endpoint := holds_pending consistent.calls agent
    (by rw [inside]; rfl) (by rw [inside]; exact List.mem_cons_self)
  obtain ⟨_, _, found, _⟩ := consistent.holdings.held server endpoint holds
  simp [found]

end Registry

end Rpcz.EndpointRegistry
