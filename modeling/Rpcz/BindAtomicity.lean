import Rpcz.BlockingReplies
import Rpcz.HandlerCache

/-!
A bind reaches the workers in two steps: the broker receives on the new socket,
and only later the binding thread inserts the factories. A handler that a
worker creates in between is kept without services.
-/

namespace Rpcz.BindAtomicity
open Automaton Message EventLog RequestHandlers WorkerThread BrokerThread ProcessModel Moves History
  BrokerSockets BlockingCalls BlockingReplies HandlerCache HeaderCodec

def bindCalls (thread : Thread) (events : List Event) : List Factories :=
  events.filterMap fun
    | .bindCalled caller _ factories => if caller = thread then some factories else none
    | _ => none

def lastBind (thread : Thread) (events : List Event) : Option Factories :=
  (bindCalls thread events).getLast?

def BoundWith (events : List Event) (routerIndex : Nat) (factories : Factories) : Prop :=
  ∃ before thread endpoint rest, events = before ++ .routerCreated thread endpoint routerIndex :: rest ∧
    lastBind thread before = some factories

/-- Every handler for a connection of a bind holds a service from each factory of
the bind, and no request for one of these names is refused. -/
structure BindAtomic (events : List Event) : Prop where
  holdsAll : ∀ worker routerIndex sender services factories,
    .handlerCreated worker (.router routerIndex sender) services ∈ events →
      BoundWith events routerIndex factories → HoldsAll factories services
  found : ∀ routerIndex sender eventId name factories,
    .noSuchService (.router routerIndex sender) eventId name ∈ events →
      BoundWith events routerIndex factories → name ∉ factories.map Prod.fst

/-- The factories of a bind are inserted before any handler for its router is created. -/
def InsertedFirst (events : List Event) : Prop :=
  ∀ before worker routerIndex sender services rest factories,
    events = before ++ .handlerCreated worker (.router routerIndex sender) services :: rest →
      BoundWith events routerIndex factories →
        factories = [] ∨ ∃ thread, .factoriesInserted thread routerIndex ∈ before

def InUse (process : Process) (map : MapId) : Prop :=
  (∃ thread, process.calls thread = .binding map) ∨
    (∃ thread routerIndex, process.calls thread = .inserting routerIndex map) ∨
    ∃ routerIndex, process.routerFactories routerIndex = some map

/-- No factory of a map that was given to a bind call is replaced under its name. -/
def KeepsFactories (process : Process) (action : Action) : Prop :=
  ∀ thread map name factory, action = .thread thread (.registerFactory map name factory) →
    name ∈ (process.factoryMaps map).map Prod.fst → ¬ InUse process map

section Projections
variable {thread : Thread} {first second : List Event}

theorem lastBind_quiet (silent : ∀ endpoint factories, .bindCalled thread endpoint factories ∉ second) :
    lastBind thread (first ++ second) = lastBind thread first := by
  have none_called : bindCalls thread second = [] := by
    refine List.filterMap_eq_nil_iff.mpr (fun event member => ?_)
    cases event with
    | bindCalled caller endpoint factories =>
      refine if_neg (fun here => ?_)
      subst here
      exact silent endpoint factories member
    | _ => rfl
  unfold lastBind bindCalls at *
  rw [List.filterMap_append, none_called, List.append_nil]

theorem lastBind_called (endpoint : Bytes) (factories : Factories) :
    lastBind thread (first ++ [.bindCalled thread endpoint factories]) = some factories := by
  simp [lastBind, bindCalls]

theorem BoundWith.mono {routerIndex : Nat} {factories : Factories}
    (bound : BoundWith first routerIndex factories) (second : List Event) :
    BoundWith (first ++ second) routerIndex factories := by
  obtain ⟨before, thread, endpoint, rest, rfl, called⟩ := bound
  exact ⟨before, thread, endpoint, rest ++ second, by simp, called⟩

theorem boundWith_append {routerIndex : Nat} {factories : Factories}
    (bound : BoundWith (first ++ second) routerIndex factories) :
    BoundWith first routerIndex factories ∨
      ∃ pre thread endpoint post, second = pre ++ .routerCreated thread endpoint routerIndex :: post ∧
        lastBind thread (first ++ pre) = some factories := by
  obtain ⟨before, thread, endpoint, rest, split, called⟩ := bound
  rcases List.append_eq_append_iff.mp split with ⟨pre, left, right⟩ | ⟨gap, left, right⟩
  · exact .inr ⟨pre, thread, endpoint, rest, right, by rw [← left]; exact called⟩
  · cases gap with
    | nil =>
      simp only [List.append_nil, List.nil_append] at left right
      exact .inr ⟨[], thread, endpoint, rest, right.symm, by rw [List.append_nil, left]; exact called⟩
    | cons head tail =>
      simp only [List.cons_append, List.cons.injEq] at right
      obtain ⟨rfl, rfl⟩ := right
      exact .inl ⟨before, thread, endpoint, tail, left, called⟩

theorem boundWith_quiet {routerIndex : Nat} {factories : Factories}
    (silent : ∀ thread endpoint index, .routerCreated thread endpoint index ∉ second)
    (bound : BoundWith (first ++ second) routerIndex factories) :
    BoundWith first routerIndex factories := by
  rcases boundWith_append bound with old | ⟨pre, thread, endpoint, post, split, _⟩
  · exact old
  · exact absurd (by rw [split]; simp) (silent thread endpoint routerIndex)

end Projections

variable {cfg : Config} {process after : Process} {events emitted : List Event}
  {allowed : Process → Action → Prop}

inductive BindMove (process after : Process) (actor : Thread) (action : ThreadAction)
    (emitted : List Event) : Prop where
  | aside (unbinding : ∀ map, after.calls actor ≠ .binding map)
      (uninserting : ∀ index map, after.calls actor ≠ .inserting index map)
      (maps : after.factoryMaps = process.factoryMaps)
      (routers : after.routerFactories = process.routerFactories)
      (silent : ∀ endpoint factories, .bindCalled actor endpoint factories ∉ emitted)
      (kept : ∀ index, .factoriesInserted actor index ∉ emitted)
  | starts (map : MapId) (endpoint : Bytes) (idle : process.calls actor = .idle)
      (now : after.calls actor = .binding map)
      (maps : after.factoryMaps = process.factoryMaps)
      (routers : after.routerFactories = process.routerFactories)
      (report : emitted = [.bindCalled actor endpoint (process.factoryMaps map)])
  | answered (map : MapId) (index : Nat) (waiting : process.calls actor = .binding map)
      (reply : .socketIndex index ∈ process.replies actor)
      (now : after.calls actor = .inserting index map)
      (maps : after.factoryMaps = process.factoryMaps)
      (routers : after.routerFactories = process.routerFactories)
      (report : emitted = [.received actor (.socketIndex index)])
  | inserts (map : MapId) (index : Nat) (inside : process.calls actor = .inserting index map)
      (now : after.calls actor = .idle) (maps : after.factoryMaps = process.factoryMaps)
      (routers : after.routerFactories =
        Function.update process.routerFactories index (some map))
      (report : emitted = [.factoriesInserted actor index])
  | registers (map : MapId) (name : Bytes) (factory : Factory)
      (asked : action = .registerFactory map name factory)
      (calls : after.calls = process.calls)
      (maps : after.factoryMaps = Function.update process.factoryMaps map
        (insertFactory (process.factoryMaps map) name factory))
      (routers : after.routerFactories = process.routerFactories) (report : emitted = [])

theorem threadMove_bind {actor : Thread} {action : ThreadAction}
    (move : ThreadMove cfg process actor action after emitted) :
    BindMove process after actor action emitted := by
  cases move with
  | bind endpoint factories idle =>
    exact .starts (.user factories) endpoint idle (by simp [Process.startBind, Process.setCall]) rfl
      rfl rfl
  | serverBind server endpoint endpoints idle alive unbound =>
    exact .starts (.server server) endpoint idle (by simp [Process.startBind, Process.setCall]) rfl
      rfl rfl
  | bound factories index rest inside answer =>
    exact .answered factories index inside (by simp [answer]) (by simp [Process.setCall]) rfl rfl rfl
  | insertFactories routerIndex factories inside =>
    exact .inserts factories routerIndex inside (by simp [Process.setCall]) rfl rfl rfl
  | registerFactory factories name factory idle =>
    exact .registers factories name factory rfl rfl rfl rfl rfl
  | alreadyBound server endpoint idle | newServer server idle absent =>
    exact .aside (by simp [idle]) (by simp [idle]) rfl rfl (by simp) (by simp)
  | add closure idle | registerService info name svc idle | reply action info data idle made =>
    exact .aside (by simp [idle, Process.write]) (by simp [idle, Process.write]) rfl rfl (by simp)
      (by simp)
  | _ => exact .aside (by simp [Process.setCall]) (by simp [Process.setCall]) rfl rfl (by simp) (by simp)

theorem move_aside {action : Action} (move : Move cfg process action after emitted)
    (other : ∀ thread step, action ≠ .thread thread step) :
    after.calls = process.calls ∧ after.factoryMaps = process.factoryMaps ∧
      after.routerFactories = process.routerFactories ∧ ∀ event ∈ emitted, origin event ≠ .thread := by
  have brokerEvents : ∀ result : Broker × List Event, (∀ event ∈ result.2, origin event = .broker) →
      ∀ event ∈ result.2 ++ queuedEvents result.1.outbox, origin event ≠ .thread := by
    intro result silent event member
    rcases List.mem_append.mp member with left | right
    · rw [silent event left]
      decide
    · rw [queuedEvents_origin event right]
      decide
  cases move with
  | thread thread action => exact absurd rfl (other thread action)
  | loopTop => exact ⟨rfl, rfl, rfl, brokerEvents _ (loopTop_origin _)⟩
  | timers => exact ⟨rfl, rfl, rfl, brokerEvents _ (runTimers_origin _ _ _)⟩
  | poll => exact ⟨rfl, rfl, rfl, brokerEvents _ (afterPoll_origin _ _)⟩
  | finished | quiet | outOfRange | release | joinBroker | joinWorkers =>
    exact ⟨rfl, rfl, rfl, by simp [origin]⟩
  | command i sender oracle cmd rest phase performed slot unread result same =>
    refine ⟨rfl, rfl, rfl, fun event member => ?_⟩
    rcases List.mem_cons.mp member with rfl | later
    · simp [origin]
    · exact brokerEvents result (same ▸ handleCommand_origin _ _ _ _ _) event later
  | message i callback frames phase performed slot network nonempty result same =>
    exact ⟨rfl, rfl, rfl, brokerEvents result (same ▸ receive_origin _ _ _ _)⟩
  | flush output rest live unperformed =>
    refine ⟨?_, ?_, ?_, fun event member => by rw [perform_origin _ _ event member]; decide⟩
    all_goals
      cases output with
      | push | reply => rfl
      | send info socket frames cause =>
        simp only [Process.perform]
        split <;> rfl
  | worker index cmd rest legal running idle unread result same =>
    refine ⟨rfl, rfl, rfl, fun event member => ?_⟩
    rcases List.mem_cons.mp member with rfl | later
    · simp [origin]
    · rw [← same] at later
      rw [exec_origin _ _ _ _ _ _ event later]
      decide

/-- The reply a binding thread is about to read was there before, or the step
created its router. -/
theorem answered_step (run : Run (machine cfg) allowed events process) {action : Action}
    (fired : (machine cfg).step process action = some (after, emitted)) {thread : Thread}
    {map : MapId} {index : Nat} (waiting : after.calls thread = .binding map)
    (member : .answered (.socketIndex index) ∈ flights after thread) :
    .answered (.socketIndex index) ∈ flights process thread ∨
      ∃ endpoint, .routerCreated thread endpoint index ∈ emitted := by
  have matched := matched_of_run run thread
  cases flight_step (sound_of_run run) (step_move fired) matched.1 with
  | still calls same => exact .inl (same ▸ member)
  | begins cmd idle waits grown =>
    rw [grown] at member
    simp only [List.mem_append, List.mem_singleton, reduceCtorEq, or_false] at member
    exact .inl member
  | ends body waits idle only none => simp [none] at member
  | deleted socket calls only becomes => simp [becomes] at member
  | reads cmd fate calls only becomes asks unsent replies unread outcome =>
    rw [becomes] at member
    rcases outcome with ⟨rfl, _⟩ | ⟨endpoint, other, rfl, rfl⟩ | ⟨endpoint, other, rfl, rfl, created⟩ |
      ⟨_, _, _, rfl, _⟩
    · simp at member
    · have waits := matched.2 (.unread (.connect endpoint)) (by simp [only])
      rw [← calls, waiting] at waits
      cases waits
    · simp only [Option.toList_some, List.mem_singleton, Flight.answered.injEq,
        Reply.socketIndex.injEq] at member
      subst member
      exact .inr ⟨endpoint, created⟩
    · simp at member

/-- The router was created for a bind whose factories the map still holds. -/
def Covered (events : List Event) (process : Process) (routerIndex : Nat) (map : MapId) : Prop :=
  ∃ factories, BoundWith events routerIndex factories ∧ factories ⊆ process.factoryMaps map

theorem Covered.later {routerIndex : Nat} {map : MapId}
    (covered : Covered events process routerIndex map)
    (kept : process.factoryMaps map ⊆ after.factoryMaps map) (emitted : List Event) :
    Covered (events ++ emitted) after routerIndex map := by
  obtain ⟨factories, bound, held⟩ := covered
  exact ⟨factories, bound.mono emitted, fun entry member => kept (held member)⟩

/-- What the history says about every factory map that is on its way to a router. -/
structure Bindings (events : List Event) (process : Process) : Prop where
  known : ∀ routerIndex factories, BoundWith events routerIndex factories →
    routerIndex < process.broker.routerSockets.length
  unique : ∀ routerIndex factories others, BoundWith events routerIndex factories →
    BoundWith events routerIndex others → factories = others
  distinct : ∀ map, ((process.factoryMaps map).map Prod.fst).Nodup
  called : ∀ thread map, process.calls thread = .binding map →
    ∃ factories, lastBind thread events = some factories ∧ factories ⊆ process.factoryMaps map
  answered : ∀ thread map index, process.calls thread = .binding map →
    .answered (.socketIndex index) ∈ flights process thread → Covered events process index map
  inserting : ∀ thread map index, process.calls thread = .inserting index map →
    Covered events process index map
  inserted : ∀ index map, process.routerFactories index = some map →
    Covered events process index map
  reported : ∀ index, (∃ thread, .factoriesInserted thread index ∈ events) ↔
    process.routerFactories index ≠ none

theorem insertFactory_distinct {factories : Factories} (name : Bytes) (factory : Factory)
    (distinct : (factories.map Prod.fst).Nodup) :
    ((insertFactory factories name factory).map Prod.fst).Nodup := by
  unfold insertFactory
  rw [List.map_cons, List.nodup_cons]
  refine ⟨fun member => ?_, distinct.sublist (List.Sublist.map _ List.filter_sublist)⟩
  obtain ⟨entry, kept, same⟩ := List.mem_map.mp member
  simp [same] at kept

theorem insertFactory_keeps {factories : Factories} {name : Bytes} (factory : Factory)
    (absent : name ∉ factories.map Prod.fst) :
    factories ⊆ insertFactory factories name factory := by
  intro entry member
  refine List.mem_cons_of_mem _ (List.mem_filter.mpr ⟨member, ?_⟩)
  have other : entry.1 ≠ name := fun same => absent (same ▸ List.mem_map_of_mem member)
  simpa using other

theorem maps_keep {actor : Thread} {map used : MapId} {name : Bytes} {factory : Factory}
    (keeps : KeepsFactories process (.thread actor (.registerFactory map name factory)))
    (inUse : InUse process used) :
    process.factoryMaps used ⊆ Function.update process.factoryMaps map
      (insertFactory (process.factoryMaps map) name factory) used := by
  by_cases here : used = map
  · subst here
    rw [Function.update_self]
    exact insertFactory_keeps factory (fun present => keeps actor used name factory rfl present inUse)
  · rw [Function.update_of_ne here]
    exact fun entry => id

theorem threadMove_unbound {actor : Thread} {action : ThreadAction}
    (move : ThreadMove cfg process actor action after emitted) (thread : Thread) (endpoint : Bytes)
    (index : Nat) : .routerCreated thread endpoint index ∉ emitted := by
  intro member
  simpa [origin] using (threadMove_frame move).2.2.2.2 _ member

theorem Bindings.thread_step (before : Bindings events process)
    (run : Run (machine cfg) allowed events process) {actor : Thread} {action : ThreadAction}
    (keeps : KeepsFactories process (.thread actor action))
    (fired : (machine cfg).step process (.thread actor action) = some (after, emitted))
    (move : ThreadMove cfg process actor action after emitted) :
    Bindings (events ++ emitted) after := by
  have silent := threadMove_unbound move
  have frame := (threadMove_frame move).1
  have others : ∀ thread, thread ≠ actor → after.calls thread = process.calls thread :=
    fun thread apart => (threadMove_other apart move).1
  have same : ∀ index factories, BoundWith (events ++ emitted) index factories →
      BoundWith events index factories := fun index factories => boundWith_quiet silent
  have unread : ∀ thread map index, after.calls thread = .binding map →
      .answered (.socketIndex index) ∈ flights after thread →
        .answered (.socketIndex index) ∈ flights process thread := by
    intro thread map index waiting member
    rcases answered_step run fired waiting member with old | ⟨endpoint, created⟩
    · exact old
    · exact absurd created (silent thread endpoint index)
  have quiet : ∀ thread, thread ≠ actor →
      lastBind thread (events ++ emitted) = lastBind thread events := by
    intro thread apart
    refine lastBind_quiet (fun endpoint factories member => ?_)
    cases threadMove_bind move with
    | starts _ _ _ _ _ _ report | answered _ _ _ _ _ _ _ report | inserts _ _ _ _ _ _ report
    | registers _ _ _ _ _ _ _ report => simp [report, apart] at member
    | aside => cases move <;> simp [Process.startBind, apart] at member
  have kept : ∀ map, InUse process map → process.factoryMaps map ⊆ after.factoryMaps map := by
    intro map inUse
    cases threadMove_bind move with
    | aside _ _ maps | starts _ _ _ _ maps | answered _ _ _ _ _ maps | inserts _ _ _ _ maps =>
      rw [maps]
      exact fun entry => id
    | registers other name factory asked calls maps =>
      subst asked
      rw [maps]
      exact maps_keep keeps inUse
  have waits : ∀ thread map, after.calls thread = .binding map →
      process.calls thread = .binding map ∧
          lastBind thread (events ++ emitted) = lastBind thread events ∨
        process.calls thread = .idle ∧
          lastBind thread (events ++ emitted) = some (process.factoryMaps map) ∧
          after.factoryMaps = process.factoryMaps := by
    intro thread map waiting
    by_cases here : thread = actor
    · subst here
      cases threadMove_bind move with
      | aside unbinding => exact absurd waiting (unbinding map)
      | starts other endpoint idle now maps routers report =>
        rw [now, Call.binding.injEq] at waiting
        subst waiting
        exact .inr ⟨idle, by rw [report]; exact lastBind_called _ _, maps⟩
      | answered _ _ _ _ now | inserts _ _ _ now =>
        rw [now] at waiting
        cases waiting
      | registers _ _ _ _ calls _ _ report =>
        rw [calls] at waiting
        exact .inl ⟨waiting, by rw [report, List.append_nil]⟩
    · exact .inl ⟨by rw [← others thread here]; exact waiting, quiet thread here⟩
  refine ⟨?_, ?_, ?_, ?_, ?_, ?_, ?_, ?_⟩
  · intro index factories bound
    rw [frame]
    exact before.known index factories (same _ _ bound)
  · intro index factories others first second
    exact before.unique index factories others (same _ _ first) (same _ _ second)
  · intro map
    cases threadMove_bind move with
    | aside _ _ maps | starts _ _ _ _ maps | answered _ _ _ _ _ maps | inserts _ _ _ _ maps =>
      rw [maps]
      exact before.distinct map
    | registers other name factory asked calls maps =>
      rw [maps]
      by_cases here : map = other
      · subst here
        rw [Function.update_self]
        exact insertFactory_distinct name factory (before.distinct map)
      · rw [Function.update_of_ne here]
        exact before.distinct map
  · intro thread map waiting
    rcases waits thread map waiting with ⟨waited, last⟩ | ⟨_, last, maps⟩
    · obtain ⟨factories, called, held⟩ := before.called thread map waited
      exact ⟨factories, by rw [last, called],
        fun entry member => kept map (.inl ⟨thread, waited⟩) (held member)⟩
    · exact ⟨_, last, by rw [maps]; exact fun entry => id⟩
  · intro thread map index waiting member
    have old := unread thread map index waiting member
    rcases waits thread map waiting with ⟨waited, _⟩ | ⟨idle, _⟩
    · exact (before.answered thread map index waited old).later (kept map (.inl ⟨thread, waited⟩)) _
    · rw [(matched_of_run run).none_idle (by rw [idle]; rfl)] at old
      cases old
  · intro thread map index inside
    by_cases here : thread = actor
    · subst here
      cases threadMove_bind move with
      | aside _ uninserting => exact absurd inside (uninserting index map)
      | starts _ _ _ now | inserts _ _ _ now =>
        rw [now] at inside
        cases inside
      | answered other got waiting reply now =>
        rw [now, Call.inserting.injEq] at inside
        obtain ⟨rfl, rfl⟩ := inside
        refine (before.answered thread other got waiting ?_).later (kept other (.inl ⟨thread, waiting⟩)) _
        simp [flights, reply]
      | registers _ _ _ _ calls =>
        rw [calls] at inside
        exact (before.inserting thread map index inside).later
          (kept map (.inr (.inl ⟨thread, index, inside⟩))) _
    · rw [others thread here] at inside
      exact (before.inserting thread map index inside).later
        (kept map (.inr (.inl ⟨thread, index, inside⟩))) _
  · intro index map found
    have held : process.routerFactories index = some map → Covered (events ++ emitted) after index map :=
      fun listed => (before.inserted index map listed).later (kept map (.inr (.inr ⟨index, listed⟩))) _
    cases threadMove_bind move with
    | aside _ _ _ routers | starts _ _ _ _ _ routers | answered _ _ _ _ _ _ routers
    | registers _ _ _ _ _ _ routers =>
      exact held (by rw [← routers]; exact found)
    | inserts other place inside now maps routers =>
      rw [routers] at found
      by_cases here : index = place
      · subst here
        rw [Function.update_self, Option.some.injEq] at found
        subst found
        exact (before.inserting actor other index inside).later
          (kept other (.inr (.inl ⟨actor, index, inside⟩))) _
      · rw [Function.update_of_ne here] at found
        exact held found
  · intro index
    have unchanged : after.routerFactories = process.routerFactories →
        (∀ thread, .factoriesInserted thread index ∉ emitted) →
          ((∃ thread, .factoriesInserted thread index ∈ events ++ emitted) ↔
            after.routerFactories index ≠ none) := by
      intro routers none
      rw [routers, ← before.reported index]
      refine exists_congr (fun thread => ?_)
      rw [List.mem_append, or_iff_left (none thread)]
    cases threadMove_bind move with
    | aside _ _ _ routers _ none =>
      refine unchanged routers (fun thread member => ?_)
      by_cases here : thread = actor
      · subst here
        exact none index member
      · cases move <;> simp [Process.startBind, here] at member
    | starts _ _ _ _ _ routers report | answered _ _ _ _ _ _ routers report
    | registers _ _ _ _ _ _ routers report =>
      exact unchanged routers (by simp [report])
    | inserts other place inside now maps routers report =>
      rw [routers, report]
      by_cases here : index = place
      · subst here
        simp
      · rw [Function.update_of_ne here, ← before.reported index]
        simp [here]

theorem Bindings.aside_step (before : Bindings events process)
    (run : Run (machine cfg) allowed events process) {action : Action}
    (fired : (machine cfg).step process action = some (after, emitted))
    (other : ∀ thread step, action ≠ .thread thread step) : Bindings (events ++ emitted) after := by
  obtain ⟨calls, maps, routers, aside⟩ := move_aside (step_move fired) other
  have quiet : ∀ thread pre, (∀ event ∈ pre, event ∈ emitted) →
      lastBind thread (events ++ pre) = lastBind thread events := by
    intro thread pre within
    refine lastBind_quiet (fun endpoint factories member => ?_)
    exact absurd rfl (aside _ (within _ member))
  have kept : ∀ map, process.factoryMaps map ⊆ after.factoryMaps map := by
    intro map
    rw [maps]
    exact fun entry => id
  have fresh : (∀ thread endpoint index, .routerCreated thread endpoint index ∉ emitted) ∧
        after.broker.routerSockets.length = process.broker.routerSockets.length ∨
      ∃ thread endpoint pre post, emitted =
          pre ++ .routerCreated thread endpoint process.broker.routerSockets.length :: post ∧
        (∀ thread endpoint index, .routerCreated thread endpoint index ∉ pre ++ post) ∧
        after.broker.routerSockets.length = process.broker.routerSockets.length + 1 := by
    have silent : ∀ events : List Event, (∀ event ∈ events, neutral event = true) →
        ∀ thread endpoint index, .routerCreated thread endpoint index ∉ events :=
      fun events plain thread endpoint index member => by cases plain _ member
    rcases tables_step (sound_of_run run) (step_move fired) with
      ⟨_, same, plain⟩ | ⟨sender, cmd, rest, rfl, _, changed⟩
    · exact .inl ⟨silent emitted plain, by rw [same]⟩
    · rcases changed with ⟨endpoint, _, _, same, plain⟩ | ⟨endpoint, others, _, _, grown, rfl, plain⟩ |
        ⟨_, _, same, plain⟩
      · exact .inl ⟨by simpa using silent rest plain, by rw [same]⟩
      · refine .inr ⟨sender, endpoint, [.handled sender cmd], others, rfl, ?_, by rw [grown]; simp⟩
        simpa using silent others plain
      · exact .inl ⟨by simpa using silent rest plain, by rw [same]⟩
  have grow : process.broker.routerSockets.length ≤ after.broker.routerSockets.length := by
    rcases fresh with ⟨_, same⟩ | ⟨_, _, _, _, _, _, more⟩ <;> omega
  have bounds : ∀ index factories, BoundWith (events ++ emitted) index factories →
      BoundWith events index factories ∨ index = process.broker.routerSockets.length ∧
        index < after.broker.routerSockets.length ∧
        ∃ thread endpoint, .routerCreated thread endpoint index ∈ emitted ∧
          lastBind thread events = some factories := by
    intro index factories bound
    rcases boundWith_append bound with old | ⟨pre, thread, endpoint, post, split, last⟩
    · exact .inl old
    · have reported : .routerCreated thread endpoint index ∈ emitted := by rw [split]; simp
      rcases fresh with ⟨silent, _⟩ | ⟨sender, place, front, back, report, silent, more⟩
      · exact absurd reported (silent thread endpoint index)
      · rw [quiet thread pre (fun event member => by rw [split]; exact List.mem_append_left _ member)]
          at last
        have here : index = process.broker.routerSockets.length := by
          rw [report] at reported
          simp only [List.mem_append, List.mem_cons, Event.routerCreated.injEq] at reported
          have outside := silent thread endpoint index
          simp only [List.mem_append, not_or] at outside
          rcases reported with first | ⟨_, _, same⟩ | second
          · exact absurd first outside.1
          · exact same
          · exact absurd second outside.2
        refine .inr ⟨here, by omega, thread, endpoint, ?_, last⟩
        rw [split]
        simp
  have created : ∀ index sender endpoint other place, .routerCreated sender endpoint index ∈ emitted →
      .routerCreated other place index ∈ emitted → sender = other := by
    intro index sender endpoint other place first second
    rcases fresh with ⟨silent, _⟩ | ⟨maker, spot, front, back, report, silent, _⟩
    · exact absurd first (silent _ _ _)
    · have outside := fun thread endpoint index => by
        simpa only [List.mem_append, not_or] using silent thread endpoint index
      rw [report] at first second
      simp only [List.mem_append, List.mem_cons, Event.routerCreated.injEq, (outside _ _ _).1,
        (outside _ _ _).2, false_or, or_false] at first second
      rw [first.1, second.1]
  refine ⟨?_, ?_, ?_, ?_, ?_, ?_, ?_, ?_⟩
  · intro index factories bound
    rcases bounds index factories bound with old | ⟨_, low, _⟩
    · exact Nat.lt_of_lt_of_le (before.known index factories old) grow
    · exact low
  · intro index factories others first second
    rcases bounds index factories first with old | ⟨here, _, thread, endpoint, report, last⟩
    · rcases bounds index others second with older | ⟨here, _⟩
      · exact before.unique index factories others old older
      · have low := before.known index factories old
        omega
    · rcases bounds index others second with older | ⟨_, _, sender, place, again, later⟩
      · have low := before.known index others older
        omega
      · rw [created index thread endpoint sender place report again, later] at last
        exact (Option.some.inj last).symm
  · intro map
    rw [maps]
    exact before.distinct map
  · intro thread map waiting
    rw [calls] at waiting
    obtain ⟨factories, last, held⟩ := before.called thread map waiting
    exact ⟨factories, by rw [quiet thread emitted (fun event => id), last], fun entry member =>
      kept map (held member)⟩
  · intro thread map index waiting member
    rcases answered_step run fired waiting member with old | ⟨endpoint, reported⟩
    · rw [calls] at waiting
      exact (before.answered thread map index waiting old).later (kept map) _
    · rw [calls] at waiting
      obtain ⟨factories, last, held⟩ := before.called thread map waiting
      obtain ⟨pre, post, split⟩ := List.append_of_mem reported
      refine ⟨factories, ⟨events ++ pre, thread, endpoint, post, by rw [split]; simp, ?_⟩,
        fun entry member => kept map (held member)⟩
      rw [quiet thread pre (fun event inside => by rw [split]; exact List.mem_append_left _ inside), last]
  · intro thread map index inside
    rw [calls] at inside
    exact (before.inserting thread map index inside).later (kept map) _
  · intro index map found
    rw [routers] at found
    exact (before.inserted index map found).later (kept map) _
  · intro index
    rw [routers, ← before.reported index]
    refine exists_congr (fun thread => ?_)
    rw [List.mem_append, or_iff_left (fun new => aside _ new rfl)]

theorem bindings_of_run (run : Run (machine cfg) KeepsFactories events process) :
    Bindings events process := by
  refine Steps.invariant Bindings ?_ ?_ run
  · have unbound : ∀ index factories, ¬ BoundWith [] index factories := by
      rintro index factories ⟨pre, thread, endpoint, rest, split, _⟩
      simp at split
    refine ⟨fun index factories bound => absurd bound (unbound _ _),
      fun index factories others bound => absurd bound (unbound _ _), fun map => List.nodup_nil, ?_, ?_,
      ?_, ?_, ?_⟩
    · intro thread map waiting
      cases waiting
    · intro thread map index waiting
      cases waiting
    · intro thread map index inside
      cases inside
    · intro index map found
      cases found
    · intro index
      exact iff_of_false (by simp) (fun found => found rfl)
  · intro events process action emitted after earlier before keeps fired
    by_cases threaded : ∃ thread step, action = .thread thread step
    · obtain ⟨thread, step, rfl⟩ := threaded
      cases step_move fired with
      | thread _ _ _ _ running move => exact before.thread_step earlier keeps fired move
    · exact before.aside_step earlier fired (fun thread step same => threaded ⟨thread, step, same⟩)

theorem created_occurs (run : Run (machine cfg) allowed events process)
    {before rest : List Event} {worker routerIndex : Nat} {sender : Bytes}
    {services : List (Bytes × Service)}
    (split : events = before ++ .handlerCreated worker (.router routerIndex sender) services :: rest) :
    ∃ earlier emitted state, Run (machine cfg) allowed earlier state ∧ before = earlier ++ emitted ∧
      (∀ thread, .factoriesInserted thread routerIndex ∈ before →
        .factoriesInserted thread routerIndex ∈ earlier) ∧
      ∃ fresh, services =
        (RequestHandler.new state.factories fresh (.router routerIndex sender)).serviceMap := by
  subst split
  cases run.occurs with
  | «at» earlier pre post later state action after' ran permitted fired left remaining right =>
    obtain ⟨index, cmd, queue, result, _, unread, same, _, report⟩ :=
      worker_move (step_move fired) (List.mem_append_right pre List.mem_cons_self)
        (.inr (by simp [origin]))
    have within : .handlerCreated worker (.router routerIndex sender) services ∈ result.events := by
      have inside : .handlerCreated worker (.router routerIndex sender) services ∈
          pre ++ .handlerCreated worker (.router routerIndex sender) services :: post := by simp
      rw [report] at inside
      simpa using inside
    rw [← same] at within
    subst left
    refine ⟨earlier, pre, state, ran, rfl, fun thread member => ?_, _, exec_created within⟩
    rcases List.mem_append.mp member with old | new
    · exact old
    · have emittedHere : .factoriesInserted thread routerIndex ∈
          pre ++ .handlerCreated worker (.router routerIndex sender) services :: post :=
        List.mem_append_left _ new
      rw [report, ← same] at emittedHere
      rcases List.mem_cons.mp emittedHere with popped | ran'
      · cases popped
      · simpa [origin] using exec_origin _ _ _ _ _ _ _ ran'

theorem refused_created (run : Run (machine cfg) allowed events process) {info : ConnectionInfo}
    {eventId : UInt64} {name : Bytes} (refused : .noSuchService info eventId name ∈ events) :
    ∃ worker services, .handlerCreated worker info services ∈ events ∧
      services.lookup name = none := by
  obtain ⟨before, rest, rfl⟩ := List.append_of_mem refused
  cases run.occurs with
  | «at» earlier pre post later state action after' ran permitted fired left remaining right =>
    obtain ⟨index, cmd, queue, result, _, unread, same, _, report⟩ :=
      worker_move (step_move fired) (List.mem_append_right pre List.mem_cons_self)
        (.inr (by simp [origin]))
    have inside : .noSuchService info eventId name ∈ .popped index cmd :: result.events := by
      rw [← report]
      simp
    have within : .noSuchService info eventId name ∈ result.events := by simpa using inside
    have cached : Cached index (earlier ++ [.popped index cmd])
        { state.workers index with queue := queue }.handlers := (cached_of_run ran index).mono _
    rw [← same] at within
    obtain ⟨services, created, missing⟩ := exec_noSuchService cached within
    have whole : before ++ .noSuchService info eventId name :: rest =
        earlier ++ (.popped index cmd :: result.events) ++ later := by
      rw [← report, left, right]
      simp
    refine ⟨index, services, ?_, missing⟩
    rw [whole]
    refine List.mem_append_left _ ?_
    rw [same, List.append_assoc] at created
    exact created

/-- Binding is atomic exactly in the runs that insert the factories of a bind
before a worker meets a connection of its router. -/
theorem bind_atomic_iff (run : Run (machine cfg) KeepsFactories events process) :
    BindAtomic events ↔ InsertedFirst events := by
  have bindings := bindings_of_run run
  refine ⟨fun atomic before worker index sender services rest factories split bound => ?_,
    fun first => ?_⟩
  · obtain ⟨earlier, emitted, state, ran, front, _, fresh, new⟩ := created_occurs run split
    by_cases empty : factories = []
    · exact .inl empty
    · have holds := atomic.holdsAll worker index sender services factories (by rw [split]; simp) bound
      obtain ⟨entry, member⟩ := List.exists_mem_of_ne_nil _ empty
      obtain ⟨address, found⟩ := holds entry.1 entry.2 member
      have registered : state.routerFactories index ≠ none := by
        intro missing
        have none_made := new_empty fresh sender
          (show state.factories index = none by simp [Process.factories, missing])
        rw [new, none_made] at found
        cases found
      obtain ⟨thread, inserted⟩ := ((bindings_of_run ran).reported index).mpr registered
      exact .inr ⟨thread, by rw [front]; exact List.mem_append_left _ inserted⟩
  · have holdsAll : ∀ worker index sender services factories,
        .handlerCreated worker (.router index sender) services ∈ events →
          BoundWith events index factories → HoldsAll factories services := by
      intro worker index sender services factories created bound
      obtain ⟨before, rest, split⟩ := List.append_of_mem created
      obtain ⟨earlier, emitted, state, ran, front, narrow, fresh, new⟩ := created_occurs run split
      rcases first before worker index sender services rest factories split bound with
        empty | ⟨thread, inserted⟩
      · intro name factory member
        rw [empty] at member
        cases member
      · have then' := bindings_of_run ran
        have registered := (then'.reported index).mp ⟨thread, narrow thread inserted⟩
        obtain ⟨map, found⟩ := Option.ne_none_iff_exists'.mp registered
        obtain ⟨others, boundThen, held⟩ := then'.inserted index map found
        have sameBind : factories = others := by
          refine bindings.unique index factories others bound ?_
          rw [split, front, List.append_assoc]
          exact boundThen.mono _
        subst sameBind
        intro name factory member
        rw [new]
        exact new_holdsAll (by simp [Process.factories, found]) (then'.distinct map) name factory
          (held member)
    refine ⟨holdsAll, fun index sender eventId name factories refused bound listed => ?_⟩
    obtain ⟨worker, services, created, missing⟩ := refused_created run refused
    obtain ⟨entry, member, rfl⟩ := List.mem_map.mp listed
    obtain ⟨address, found⟩ := holdsAll worker index sender services factories created bound entry.1
      entry.2 member
    rw [found] at missing
    cases missing

def addsOnly (process : Process) : Action → Bool
  | .thread _ (.registerFactory map name _) => name ∉ (process.factoryMaps map).map Prod.fst
  | _ => true

theorem keepsFactories_of_addsOnly {action : Action} (adds : addsOnly process action = true) :
    KeepsFactories process action := by
  intro thread map name factory same present
  subst same
  simp [addsOnly] at adds
  obtain ⟨entry, member, rfl⟩ := List.mem_map.mp present
  exact absurd member (adds entry.2)

def binding : List Action :=
  [.thread (.app 0) (.registerFactory (.user 0) [2] (.perConnection 5)),
    .thread (.app 0) (.bind [1] 0)] ++ turn 1 ++ [.flush, .dispatch .nothing]

/-- A peer asks the new router for service 2, and the worker looks at the request. -/
def asking : List Action :=
  [.loopTop, .timers 0, .poll (.ready [false, true]), .dispatch .nothing,
    .dispatch (.message ([7] :: [] :: requestFrames protobuf 1 [2] [3] [4])), .flush, .worker 0]

def inserting : List Action := [.thread (.app 0) .receive, .thread (.app 0) .insertFactories]

abbrev adding : Machine Process Action Event :=
  (machine plain).guarded (fun process action => addsOnly process action = true)

theorem bind_atomic_inserted :
    (BindAtomic (reached adding (binding ++ inserting ++ asking)).2 ↔
        InsertedFirst (reached adding (binding ++ inserting ++ asking)).2) ∧
      .dispatched (.router 1 [7]) 1 [2] (.own ⟨0, 5⟩) [3] [4] ∈
        (reached adding (binding ++ inserting ++ asking)).2 :=
  ⟨bind_atomic_iff ((Steps.of_guarded (run_reached adding (binding ++ inserting ++ asking))).mono
    (fun _ _ => keepsFactories_of_addsOnly)), by decide +kernel⟩

/-- The worker meets the peer before the thread has inserted its factories. -/
theorem bind_not_atomic : ¬ ∀ cfg events process, Run (machine cfg) KeepsFactories events process →
    BindAtomic events := by
  intro claim
  have ran := (Steps.of_guarded (run_reached adding (binding ++ asking))).mono
    (fun _ _ => keepsFactories_of_addsOnly)
  have atomic := claim _ _ _ ran
  have refused : .noSuchService (.router 1 [7]) 1 [2] ∈ (reached adding (binding ++ asking)).2 := by
    decide +kernel
  have bound : BoundWith (reached adding (binding ++ asking)).2 1 [([2], .perConnection 5)] :=
    ⟨(reached adding (binding ++ asking)).2.take 2, .app 0, [1],
      (reached adding (binding ++ asking)).2.drop 3, by decide +kernel, by decide +kernel⟩
  exact atomic.found 1 [7] 1 [2] _ refused bound (by decide)

end Rpcz.BindAtomicity
