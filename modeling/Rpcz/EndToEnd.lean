import Rpcz.BoundServices
import Rpcz.RemoteCalls

/-!
What a call over a bound endpoint means. The server's factory map alone decides
which calls the library refuses and with what; every other call is answered by
an object of the class registered under the name of the service.
-/

namespace Rpcz.EndToEnd
open Automaton Message EventLog RequestHandlers ProcessModel EventIds Dispatching UserCode FifoNetwork
  Network RemoteCalls BoundServices HeaderCodec

/-- The error a call gets when its service, its method or its payload is
unknown to a server that offers `classes`. -/
def expected (cfg : Config) (classes : Bytes → Option Nat) (request : Request) : Option Outcome :=
  match classes request.service with
  | none => some (.error ErrorCode.NO_SUCH_SERVICE (ascii "Invalid service: " ++ request.service))
  | some cls =>
    match cfg.descriptor cls with
    | none => none
    | some findMethodByName =>
      match findMethodByName request.method with
      | none => some (.error ErrorCode.NO_SUCH_METHOD [])
      | some descriptor =>
        if cfg.requestParses descriptor request.payload then none
        else some (.error ErrorCode.INVALID_MESSAGE [])

/-- An object of the class registered under the name was given the call, a
`cpp_service` with the method and the parsed payload, and answered it. -/
structure ServedBy (cfg : Config) (classes : Bytes → Option Nat) (reports : List Report)
    (request : Request) (svc : Service) (outcome : Outcome) : Prop where
  registered : classes request.service = some svc.target.cls
  dispatched : .dispatched request.info request.eventId request.service svc request.method
    request.payload ∈ eventsIn reports
  called : ∀ findMethodByName, cfg.descriptor svc.target.cls = some findMethodByName →
    ∃ descriptor, findMethodByName request.method = some descriptor ∧
      .called request.info request.eventId svc.target descriptor request.payload ∈ eventsIn reports
  replied : ∃ thread, .answered thread ⟨request.info, request.eventId, outcome⟩ ∈ reports

def Means (cfg : Config) (classes : Bytes → Option Nat) (reports : List Report) (request : Request)
    (outcome : Outcome) : Prop :=
  match expected cfg classes request with
  | some refused => outcome = refused
  | none => ∃ svc, ServedBy cfg classes reports request svc outcome

theorem answered_means {cfg : Config} {classes : Bytes → Option Nat} {reports : List Report}
    {request : Request} {outcome : Outcome}
    (offers : Offers classes request.info (eventsIn reports))
    (answered : AnsweredBy cfg reports request outcome) :
    Means cfg classes reports request outcome := by
  unfold Means
  cases answered with
  | unknownService looked =>
    have missing := offers.missing _ _ looked
    have refused : expected cfg classes request = some
        (.error ErrorCode.NO_SUCH_SERVICE (ascii "Invalid service: " ++ request.service)) := by
      simp only [expected, missing]
    rw [refused]
  | unknownMethod svc table dispatched known missing =>
    have found := offers.found _ _ _ _ _ dispatched
    have refused : expected cfg classes request = some (.error ErrorCode.NO_SUCH_METHOD []) := by
      simp only [expected, found, known, missing]
    rw [refused]
  | invalidMessage svc table descriptor dispatched known named unreadable =>
    have found := offers.found _ _ _ _ _ dispatched
    have refused : expected cfg classes request = some (.error ErrorCode.INVALID_MESSAGE []) := by
      simp [expected, found, known, named, unreadable]
    rw [refused]
  | method svc table descriptor dispatched known named parses called thread outcome replied =>
    have found := offers.found _ _ _ _ _ dispatched
    have passed : expected cfg classes request = none := by
      simp [expected, found, known, named, parses]
    rw [passed]
    refine ⟨svc, found, dispatched, fun findMethodByName same => ?_, thread, replied⟩
    rw [known] at same
    cases same
    exact ⟨descriptor, named, called⟩
  | service svc dispatched custom thread outcome replied =>
    have found := offers.found _ _ _ _ _ dispatched
    have passed : expected cfg classes request = none := by
      simp only [expected, found, custom]
    rw [passed]
    refine ⟨svc, found, dispatched, fun findMethodByName same => ?_, thread, replied⟩
    rw [custom] at same
    cases same

section Run
variable {world : World} {net : Net} {log : Log} {allowed : Net → Nat × Action → Prop}
  (run : Run (Network.machine world) allowed log net)
include run

theorem table_run {node routerIndex : Nat} {table : Factories}
    (keeps : ∀ net action, allowed net (node, action) →
      KeepsTable (world.config node) routerIndex table (net.state node).process action) :
    Run (ProcessModel.machine (world.config node))
      (KeepsTable (world.config node) routerIndex table) (happened node log)
      (net.state node).process := by
  have own : Run (UserCode.machine (world.config node)) (fun member action =>
      KeepsTable (world.config node) routerIndex table member.process action) (eventsAt node log)
      (net.state node) :=
    world.wiring.project node keeps run
  apply project ?_ own
  exact fun _ _ granted => granted

theorem offers_run {far : End} {routerIndex : Nat} {sender : Bytes}
    (bound : far.2 = .router routerIndex sender) {table : Factories}
    (keeps : ∀ net action, allowed net (far.1, action) →
      KeepsTable (world.config far.1) routerIndex table (net.state far.1).process action)
    (unregistered : ∀ index name svc, .popped index (.registerSvc far.2 name svc) ∉
      happened far.1 log) : Offers (offered table) far.2 (happened far.1 log) := by
  have offers : Offers (offered table) (.router routerIndex sender) (happened far.1 log) :=
    offers_of_run (table_run run keeps) (bound ▸ unregistered)
  exact bound ▸ offers

end Run

/-! Process 1 has inserted the factory of service 2 when the call arrives. -/

def bound : Machine Net (Nat × Action) (Item Nat ConnectionInfo (List Frame) Report) :=
  (Network.machine twoProcesses).guarded fun net turn =>
    turn.1 = 1 → keepsTable oneMethod 1 [([2], .perConnection 5)] (net.state 1).process turn.2 = true

def registers : Event → Bool
  | .popped _ (.registerSvc ..) => true
  | _ => false

end Rpcz.EndToEnd
