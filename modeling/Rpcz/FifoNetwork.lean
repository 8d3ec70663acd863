import Mathlib.Logic.Function.Basic
import Rpcz.Automaton

/-!
Machines joined by links. A step of a machine may take a message from one of its
ports, and its events may put messages on its ports. Such a message goes to the
port at the other end of the link and waits there behind those put before it.
-/

namespace Rpcz.FifoNetwork
open Automaton

/-- The machines of a network, what their steps take and put, and their links. -/
structure Wiring (Node Port Body State Action Event : Type) where
  machine : Node → Machine State Action Event
  takes : Node → State → Action → Option (Port × Body)
  puts : Node → Event → Option (Port × Body)
  peer : Node × Port → Option (Node × Port)

/-- `wire` holds what waits at a port, oldest first. -/
structure Network (Node Port Body State : Type) where
  state : Node → State
  wire : Node × Port → List Body

inductive Item (Node Port Body Event : Type) where
  | took (place : Node × Port) (body : Body)
  | event (node : Node) (event : Event)

section Definitions
variable {Node Port Body State Action Event : Type} [DecidableEq Node] [DecidableEq Port]
  [DecidableEq Body] (wiring : Wiring Node Port Body State Action Event)

def Wiring.sent (node : Node) (place : Node × Port) (events : List Event) : List Body :=
  events.filterMap fun event => (wiring.puts node event).bind fun message =>
    if wiring.peer (node, message.1) = some place then some message.2 else none

def Wiring.take (net : Network Node Port Body State) (node : Node) (action : Action) :
    Option ((Node × Port → List Body) × List (Item Node Port Body Event)) :=
  match wiring.takes node (net.state node) action with
  | none => some (net.wire, [])
  | some (port, body) =>
    match net.wire (node, port) with
    | [] => none
    | oldest :: rest =>
      if oldest = body then
        some (Function.update net.wire (node, port) rest, [.took (node, port) body])
      else none

def Wiring.step (net : Network Node Port Body State) (turn : Node × Action) :
    Option (Network Node Port Body State × List (Item Node Port Body Event)) :=
  match wiring.take net turn.1 turn.2, (wiring.machine turn.1).step (net.state turn.1) turn.2 with
  | some (wire, items), some (after, events) =>
    some (⟨Function.update net.state turn.1 after,
      fun place => wire place ++ wiring.sent turn.1 place events⟩,
      items ++ events.map (.event turn.1))
  | _, _ => none

def Wiring.network :
    Machine (Network Node Port Body State) (Node × Action) (Item Node Port Body Event) :=
  ⟨⟨fun node => (wiring.machine node).start, fun _ => []⟩, wiring.step⟩

def eventsAt (node : Node) (items : List (Item Node Port Body Event)) : List Event :=
  items.filterMap fun
    | .event owner event => if owner = node then some event else none
    | .took _ _ => none

def takenAt (place : Node × Port) (items : List (Item Node Port Body Event)) : List Body :=
  items.filterMap fun
    | .took port body => if port = place then some body else none
    | .event _ _ => none

def Wiring.sentTo (place : Node × Port) (items : List (Item Node Port Body Event)) : List Body :=
  items.flatMap fun
    | .event node event => wiring.sent node place [event]
    | .took _ _ => []

end Definitions

theorem filterMap_split {First Second : Type} {keep : First → Option Second} {list : List First}
    {before rest : List Second} {item : Second}
    (split : list.filterMap keep = before ++ item :: rest) :
    ∃ front kept back, list = front ++ kept :: back ∧ keep kept = some item ∧
      front.filterMap keep = before := by
  obtain ⟨front, later, rfl, own, last⟩ := List.filterMap_eq_append_iff.mp split
  obtain ⟨dropped, kept, back, rfl, none, shown, _⟩ := List.filterMap_eq_cons_iff.mp last
  refine ⟨front ++ dropped, kept, back, by simp, shown, ?_⟩
  rw [List.filterMap_append, own, List.filterMap_eq_nil_iff.mpr none, List.append_nil]

section Projections
variable {Node Port Body Event : Type} [DecidableEq Node] [DecidableEq Port]
  (first second : List (Item Node Port Body Event))

omit [DecidableEq Port] in
@[simp] theorem eventsAt_append (node : Node) :
    eventsAt node (first ++ second) = eventsAt node first ++ eventsAt node second :=
  List.filterMap_append ..

@[simp] theorem takenAt_append (place : Node × Port) :
    takenAt place (first ++ second) = takenAt place first ++ takenAt place second :=
  List.filterMap_append ..

omit [DecidableEq Port] in
theorem eventsAt_events (node owner : Node) (events : List Event) :
    eventsAt node (events.map (.event owner) : List (Item Node Port Body Event)) =
      if owner = node then events else [] := by
  by_cases own : owner = node
  · simp [eventsAt, own, List.filterMap_map]
  · simp [eventsAt, own, List.filterMap_map]

theorem takenAt_events (place : Node × Port) (node : Node) (events : List Event) :
    takenAt place (events.map (.event node) : List (Item Node Port Body Event)) = [] := by
  simp [takenAt, List.filterMap_map]

omit [DecidableEq Port] in
theorem mem_eventsAt {node : Node} {event : Event} {items : List (Item Node Port Body Event)} :
    event ∈ eventsAt node items ↔ .event node event ∈ items := by
  constructor
  · intro listed
    obtain ⟨item, member, shown⟩ := List.mem_filterMap.mp listed
    cases item with
    | took => cases shown
    | event owner other =>
      simp only [Option.ite_none_right_eq_some, Option.some.injEq] at shown
      obtain ⟨rfl, rfl⟩ := shown
      exact member
  · intro member
    exact List.mem_filterMap.mpr ⟨_, member, if_pos rfl⟩

omit [DecidableEq Port] in
theorem eventsAt_split {node : Node} {items : List (Item Node Port Body Event)}
    {before rest : List Event} {event : Event}
    (split : eventsAt node items = before ++ event :: rest) :
    ∃ front back, items = front ++ .event node event :: back ∧ eventsAt node front = before := by
  obtain ⟨front, item, back, rfl, shown, own⟩ := filterMap_split split
  cases item with
  | took => cases shown
  | event owner other =>
    simp only [Option.ite_none_right_eq_some, Option.some.injEq] at shown
    obtain ⟨rfl, rfl⟩ := shown
    exact ⟨front, back, rfl, own⟩

end Projections

section Sent
variable {Node Port Body State Action Event : Type} [DecidableEq Node] [DecidableEq Port]
  (wiring : Wiring Node Port Body State Action Event)

theorem Wiring.sent_append (node : Node) (place : Node × Port) (first second : List Event) :
    wiring.sent node place (first ++ second) =
      wiring.sent node place first ++ wiring.sent node place second :=
  List.filterMap_append ..

@[simp] theorem Wiring.sentTo_append (place : Node × Port)
    (first second : List (Item Node Port Body Event)) :
    wiring.sentTo place (first ++ second) = wiring.sentTo place first ++ wiring.sentTo place second :=
  List.flatMap_append ..

theorem Wiring.sentTo_events (place : Node × Port) (node : Node) (events : List Event) :
    wiring.sentTo place (events.map (.event node)) = wiring.sent node place events := by
  induction events with
  | nil => rfl
  | cons event rest ih =>
    rw [List.map_cons, ← List.singleton_append, wiring.sentTo_append, ih,
      ← List.singleton_append (l := rest), wiring.sent_append]
    simp [Wiring.sentTo]

theorem Wiring.mem_sentTo {place : Node × Port} {body : Body}
    {items : List (Item Node Port Body Event)} :
    body ∈ wiring.sentTo place items ↔ ∃ node event port, .event node event ∈ items ∧
      wiring.puts node event = some (port, body) ∧ wiring.peer (node, port) = some place := by
  constructor
  · intro listed
    obtain ⟨item, member, inside⟩ := List.mem_flatMap.mp listed
    cases item with
    | took => cases inside
    | event node event =>
      obtain ⟨other, own, shown⟩ := List.mem_filterMap.mp inside
      rw [List.mem_singleton] at own
      subst own
      obtain ⟨message, put, here⟩ := Option.bind_eq_some_iff.mp shown
      split at here
      · next linked =>
        cases here
        exact ⟨node, other, message.1, member, put, linked⟩
      · cases here
  · rintro ⟨node, event, port, member, put, linked⟩
    apply List.mem_flatMap.mpr
    exact ⟨_, member, List.mem_filterMap.mpr ⟨event, List.mem_singleton_self _, by simp [put, linked]⟩⟩

theorem Wiring.sentTo_peer {near place : Node × Port}
    (alone : ∀ other, wiring.peer other = some place ↔ other = near)
    (items : List (Item Node Port Body Event)) :
    wiring.sentTo place items = (eventsAt near.1 items).filterMap fun event =>
      (wiring.puts near.1 event).bind fun message =>
        if message.1 = near.2 then some message.2 else none := by
  induction items with
  | nil => rfl
  | cons item rest ih =>
    rw [← List.singleton_append, wiring.sentTo_append, ih, eventsAt_append, List.filterMap_append]
    congr 1
    cases item with
    | took => rfl
    | event node event =>
      by_cases own : node = near.1
      · subst own
        have same : ∀ port, wiring.peer (near.1, port) = some place ↔ port = near.2 := by
          intro port
          rw [alone, Prod.ext_iff]
          exact and_iff_right rfl
        simp [Wiring.sentTo, Wiring.sent, eventsAt, same]
      · have other : ∀ port, wiring.peer (node, port) ≠ some place := by
          intro port linked
          exact own (congrArg Prod.fst ((alone _).mp linked))
        simp [Wiring.sentTo, Wiring.sent, eventsAt, own, other]

end Sent

section Turns
variable {Node Port Body State Action Event : Type} [DecidableEq Node] [DecidableEq Port]
  {wiring : Wiring Node Port Body State Action Event}

/-- One machine takes a step of the network, and what it takes is the oldest
message at the port. -/
structure Turn (wiring : Wiring Node Port Body State Action Event)
    (net after : Network Node Port Body State) (node : Node) (action : Action) (state : State)
    (events : List Event) (taken : List (Item Node Port Body Event)) : Prop where
  fired : (wiring.machine node).step (net.state node) action = some (state, events)
  states : after.state = Function.update net.state node state
  message : (wiring.takes node (net.state node) action = none ∧ taken = []) ∨
    ∃ port body rest, wiring.takes node (net.state node) action = some (port, body) ∧
      taken = [.took (node, port) body] ∧ net.wire (node, port) = body :: rest
  links : ∀ place, takenAt place taken ++ after.wire place =
    net.wire place ++ wiring.sent node place events

namespace Turn
variable {net after : Network Node Port Body State} {node : Node} {action : Action} {state : State}
  {events : List Event} {taken : List (Item Node Port Body Event)}
  (turn : Turn wiring net after node action state events taken)
include turn

theorem eventsAt_items (owner : Node) :
    eventsAt owner (taken ++ events.map (.event node)) = if node = owner then events else [] := by
  have silent : eventsAt owner taken = [] := by
    rcases turn.message with ⟨_, none⟩ | ⟨port, body, _, _, one, _⟩
    · rw [none]
      rfl
    · rw [one]
      rfl
  rw [eventsAt_append, silent, eventsAt_events, List.nil_append]

theorem sentTo_items (place : Node × Port) :
    wiring.sentTo place (taken ++ events.map (.event node)) = wiring.sent node place events := by
  have silent : wiring.sentTo place taken = [] := by
    rcases turn.message with ⟨_, none⟩ | ⟨port, body, _, _, one, _⟩
    · rw [none]
      rfl
    · rw [one]
      rfl
  rw [wiring.sentTo_append, silent, wiring.sentTo_events, List.nil_append]

theorem mem_events {owner : Node} {event : Event}
    (member : .event owner event ∈ taken ++ events.map (.event node)) :
    owner = node ∧ event ∈ events := by
  have listed := mem_eventsAt.mpr member
  rw [turn.eventsAt_items] at listed
  split at listed
  · next own => exact ⟨own.symm, listed⟩
  · cases listed

end Turn

end Turns

variable {Node Port Body State Action Event : Type} [DecidableEq Node] [DecidableEq Port]
  [DecidableEq Body] {wiring : Wiring Node Port Body State Action Event}

theorem Wiring.turn {net after : Network Node Port Body State} {node : Node} {action : Action}
    {emitted : List (Item Node Port Body Event)}
    (stepped : wiring.network.step net (node, action) = some (after, emitted)) :
    ∃ state events taken, emitted = taken ++ events.map (.event node) ∧
      Turn wiring net after node action state events taken := by
  change wiring.step net (node, action) = some (after, emitted) at stepped
  unfold Wiring.step at stepped
  split at stepped
  · next wire items state events took fired =>
    simp only [Option.some.injEq, Prod.mk.injEq] at stepped
    obtain ⟨rfl, rfl⟩ := stepped
    unfold Wiring.take at took
    split at took
    · next nothing =>
      simp only [Option.some.injEq, Prod.mk.injEq] at took
      obtain ⟨rfl, rfl⟩ := took
      exact ⟨state, events, [], rfl, fired, rfl, .inl ⟨nothing, rfl⟩, fun place => rfl⟩
    · next port body asked =>
      split at took
      · cases took
      · next oldest rest waiting =>
        split at took
        · next same =>
          subst same
          simp only [Option.some.injEq, Prod.mk.injEq] at took
          obtain ⟨rfl, rfl⟩ := took
          refine ⟨state, events, _, rfl, fired, rfl, .inr ⟨port, oldest, rest, asked, rfl, waiting⟩, ?_⟩
          intro place
          by_cases here : place = (node, port)
          · subst here
            simp [takenAt, waiting]
          · have other : ((node, port) : Node × Port) ≠ place := fun same => here same.symm
            simp [takenAt, Function.update_of_ne here, other]
        · cases took
  · cases stepped

variable {allowed : Network Node Port Body State → Node × Action → Prop}
  {items : List (Item Node Port Body Event)} {origin net : Network Node Port Body State}

theorem Wiring.project (wiring : Wiring Node Port Body State Action Event) (node : Node)
    {permitted : State → Action → Prop}
    (permits : ∀ net action, allowed net (node, action) → permitted (net.state node) action)
    (run : Steps wiring.network allowed origin items net) :
    Steps (wiring.machine node) permitted (origin.state node) (eventsAt node items)
      (net.state node) := by
  induction run with
  | refl => exact .refl
  | @next items emitted net after turn earlier granted stepped ih =>
    obtain ⟨mover, action⟩ := turn
    obtain ⟨state, events, taken, rfl, step⟩ := wiring.turn stepped
    rw [eventsAt_append, step.eventsAt_items, step.states]
    by_cases own : mover = node
    · subst own
      rw [if_pos rfl, Function.update_self]
      exact ih.next (permits _ _ granted) step.fired
    · have other : node ≠ mover := fun same => own same.symm
      rw [if_neg own, List.append_nil, Function.update_of_ne other]
      exact ih

/-- Links lose nothing, add nothing and keep the order. -/
theorem Wiring.fifo (run : Run wiring.network allowed items net) (place : Node × Port) :
    wiring.sentTo place items = takenAt place items ++ net.wire place := by
  refine Steps.invariant (fun items net =>
    wiring.sentTo place items = takenAt place items ++ net.wire place) rfl ?_ run
  intro items net turn emitted after _ kept _ stepped
  obtain ⟨mover, action⟩ := turn
  obtain ⟨state, events, taken, rfl, step⟩ := wiring.turn stepped
  have taking : takenAt place (taken ++ events.map (.event mover)) = takenAt place taken := by
    rw [takenAt_append, takenAt_events, List.append_nil]
  calc wiring.sentTo place (items ++ (taken ++ events.map (.event mover)))
      = (takenAt place items ++ net.wire place) ++ wiring.sent mover place events := by
        rw [wiring.sentTo_append, kept, step.sentTo_items]
    _ = takenAt place items ++ (takenAt place taken ++ after.wire place) := by
        rw [List.append_assoc, step.links place]
    _ = takenAt place (items ++ (taken ++ events.map (.event mover))) ++ after.wire place := by
        rw [takenAt_append, taking, List.append_assoc]

theorem Wiring.waiting_sent (run : Run wiring.network allowed items net) {place : Node × Port}
    {body : Body} (waiting : body ∈ net.wire place) :
    ∃ node event port, .event node event ∈ items ∧
      wiring.puts node event = some (port, body) ∧ wiring.peer (node, port) = some place := by
  apply wiring.mem_sentTo.mp
  rw [wiring.fifo run place]
  exact List.mem_append_right _ waiting

end Rpcz.FifoNetwork
