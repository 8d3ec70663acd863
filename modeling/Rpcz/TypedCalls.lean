import Rpcz.EndToEnd
import Rpcz.WireFormat

/-!
Calls through the code that is generated for a service: the stub serializes a
request message, the service parses it and calls a method, and
cpp_handler_wrapper.hpp or sync_call_handler.hpp parse what is replied.
-/

namespace Rpcz.TypedCalls
open Automaton Message EventLog RequestHandlers ProcessModel EventIds Dispatching UserCode FifoNetwork
  Network RemoteCalls BoundServices HeaderCodec EndToEnd

/-- `google::protobuf::MethodDescriptor`; `id` tells descriptors apart. -/
structure MethodDescriptor where
  id : Nat
  name : Bytes
  inputType : Nat
  outputType : Nat
deriving DecidableEq

/-- `google::protobuf::ServiceDescriptor`. A name belongs to one method. -/
structure ServiceDescriptor where
  name : Bytes
  methods : List MethodDescriptor
  distinct : (methods.map MethodDescriptor.name).Nodup

def ServiceDescriptor.findMethodByName (service : ServiceDescriptor) (name : Bytes) : Option Nat :=
  (service.methods.find? (fun method => method.name = name)).map MethodDescriptor.id

structure Messages (Msg : Type) where
  typeOf : Msg → Nat
  /-- `SerializeToArray`, which fails where a required field is missing. -/
  serialize : Msg → Option Bytes
  /-- `ParseFromArray` into a new message of a type. -/
  parse : Nat → Bytes → Option Msg
  roundTrip : ∀ msg data, serialize msg = some data → parse (typeOf msg) data = some msg

inductive Delivery (Msg : Type) where
  | error (code : Int32) (text : Bytes)
  | response (msg : Msg)

section Handlers
variable {Msg : Type} (messages : Messages Msg) (outputType : Nat)

/-- `cpp_handler_wrapper::operator()` with a handler that is not empty. -/
def cppHandlerWrapper : Outcome → Delivery Msg
  | .error code text => .error code text
  | .done data =>
    match messages.parse outputType data with
    | some resp => .response resp
    | none => .error ErrorCode.INVALID_MESSAGE []

/-- `sync_call_handler`. `signals` counts the calls of `sync_.signal()`. -/
structure SyncCallHandler (Msg : Type) where
  error : Option (Int32 × Bytes)
  response : Option Msg
  signals : Nat

def SyncCallHandler.new : SyncCallHandler Msg := ⟨none, none, 0⟩

def SyncCallHandler.signal (handler : SyncCallHandler Msg) : SyncCallHandler Msg :=
  { handler with signals := handler.signals + 1 }

/-- `sync_call_handler::operator()`; `wanted` says whether `response_` is not null. -/
def SyncCallHandler.call (wanted : Bool) (handler : SyncCallHandler Msg) :
    Outcome → SyncCallHandler Msg
  | .error code text => { handler with error := some (code, text) }.signal
  | .done data =>
    if wanted then
      match messages.parse outputType data with
      | some resp => { handler with response := some resp }.signal
      | none => { handler with error := some (ErrorCode.INVALID_MESSAGE, []) }.signal
    else handler.signal

/-- `sync_requester::request` throws `*err` or returns with `*response`. -/
def SyncCallHandler.result (handler : SyncCallHandler Msg) : Except (Int32 × Bytes) (Option Msg) :=
  match handler.error with
  | some err => .error err
  | none => .ok handler.response

def Delivery.result : Delivery Msg → Except (Int32 × Bytes) (Option Msg)
  | .error code text => .error (code, text)
  | .response msg => .ok (some msg)

theorem sync_result (outcome : Outcome) :
    (SyncCallHandler.new.call messages outputType true outcome).result =
      (cppHandlerWrapper messages outputType outcome).result := by
  cases outcome with
  | error code text => rfl
  | done data =>
    simp only [SyncCallHandler.call, cppHandlerWrapper, if_true]
    cases messages.parse outputType data <;> rfl

theorem sync_signals (wanted : Bool) (handler : SyncCallHandler Msg) (outcome : Outcome) :
    (handler.call messages outputType wanted outcome).signals = handler.signals + 1 := by
  cases outcome with
  | error code text => rfl
  | done data =>
    cases wanted with
    | false => rfl
    | true =>
      simp only [SyncCallHandler.call, if_true]
      cases messages.parse outputType data <;> rfl

def outcomesOf (ctrl : Controller) (events : List Event) : List Outcome :=
  events.filterMap fun
    | .completed _ other outcome => if other = ctrl then some outcome else none
    | _ => none

def SyncCallHandler.behind (ctrl : Controller) (events : List Event) : SyncCallHandler Msg :=
  (outcomesOf ctrl events).foldl (SyncCallHandler.call messages outputType true) .new

theorem outcomesOf_absent {ctrl : Controller} {events : List Event}
    (absent : ∀ worker outcome, .completed worker ctrl outcome ∉ events) :
    outcomesOf ctrl events = [] := by
  apply List.filterMap_eq_nil_iff.mpr
  intro event listed
  split
  · next worker other outcome =>
    split
    · next same =>
      subst same
      exact absurd listed (absent worker outcome)
    · rfl
  · rfl

theorem outcomesOf_once {ctrl : Controller} {events : List Event} (once : CompletedOnce events ctrl)
    {worker : Nat} {outcome : Outcome} (completed : .completed worker ctrl outcome ∈ events) :
    outcomesOf ctrl events = [outcome] := by
  obtain ⟨before, first, given, rest, split, alone⟩ := once
  have front : outcomesOf ctrl before = [] :=
    outcomesOf_absent fun other result listed => alone other result (List.mem_append_left _ listed)
  have back : outcomesOf ctrl rest = [] :=
    outcomesOf_absent fun other result listed => alone other result (List.mem_append_right _ listed)
  have whole : outcomesOf ctrl events = [given] := by
    have parts : outcomesOf ctrl events =
        outcomesOf ctrl before ++ (given :: outcomesOf ctrl rest) := by
      rw [split]
      simp [outcomesOf]
    rw [parts, front, back, List.nil_append]
  have same : outcome ∈ outcomesOf ctrl events :=
    List.mem_filterMap.mpr ⟨_, completed, if_pos rfl⟩
  rw [whole, List.mem_singleton] at same
  rw [whole, same]

end Handlers

section Services
variable {Msg : Type} {messages : Messages Msg} {service : ServiceDescriptor}

theorem ServiceDescriptor.find_method (service : ServiceDescriptor) {method : MethodDescriptor}
    (listed : method ∈ service.methods) :
    service.findMethodByName method.name = some method.id := by
  have found : service.methods.find? (fun other => other.name = method.name) = some method := by
    obtain ⟨before, after, split⟩ := List.append_of_mem listed
    have distinct := service.distinct
    rw [split, List.map_append, List.map_cons, List.nodup_append] at distinct
    rw [split, List.find?_append]
    have absent : before.find? (fun other => other.name = method.name) = none := by
      apply List.find?_eq_none.mpr
      intro other earlier same
      have apart := distinct.2.2 other.name (List.mem_map_of_mem earlier) method.name
        List.mem_cons_self
      exact apart (by simpa using same)
    rw [absent]
    simp
  rw [ServiceDescriptor.findMethodByName, found]
  rfl

/-- The generated class of a service: its descriptor, and `GetRequestPrototype`. -/
structure Generated (messages : Messages Msg) (service : ServiceDescriptor) (cfg : Config)
    (cls : Nat) : Prop where
  descriptor : cfg.descriptor cls = some service.findMethodByName
  prototype : ∀ method, method ∈ service.methods → ∀ payload,
    cfg.requestParses method.id payload = (messages.parse method.inputType payload).isSome

/-- What a reply through `replier::reply` or `reply_error` delivers, if the
message has the type of the method's output. -/
inductive Replied (messages : Messages Msg) (outputType : Nat) : Outcome → Delivery Msg → Prop where
  | error (code : Int32) (text : Bytes) :
      Replied messages outputType (.error code text) (.error code text)
  | response (msg : Msg) (data : Bytes) (typed : messages.typeOf msg = outputType)
      (written : messages.serialize msg = some data) :
      Replied messages outputType (.done data) (.response msg)

/-- The reply of the generated method, which a service may override. -/
def notImplemented (method : MethodDescriptor) : Delivery Msg :=
  .error ErrorCode.METHOD_NOT_IMPLEMENTED
    (ascii "Method " ++ method.name ++ ascii "() not implemented.")

/-- What a service may reply to a request message, given the methods it overrides. -/
def mayReply (overrides : MethodDescriptor → Option (Msg → Delivery Msg → Prop))
    (method : MethodDescriptor) (request : Msg) (delivery : Delivery Msg) : Prop :=
  match overrides method with
  | some behaves => behaves request delivery
  | none => delivery = notImplemented method

def Implements (messages : Messages Msg) (service : ServiceDescriptor) (info : ConnectionInfo)
    (cls : Nat) (reports : List Report)
    (overrides : MethodDescriptor → Option (Msg → Delivery Msg → Prop)) : Prop :=
  ∀ method, method ∈ service.methods → ∀ eventId object payload request, object.cls = cls →
    .called info eventId object method.id payload ∈ eventsIn reports →
    messages.parse method.inputType payload = some request →
    ∀ thread outcome, .answered thread ⟨info, eventId, outcome⟩ ∈ reports →
      ∃ delivery, Replied messages method.outputType outcome delivery ∧
        mayReply overrides method request delivery

theorem replied_delivery {outputType : Nat} {outcome : Outcome} {delivery : Delivery Msg}
    (replied : Replied messages outputType outcome delivery) :
    cppHandlerWrapper messages outputType outcome = delivery := by
  cases replied with
  | error code text => rfl
  | response msg data typed written =>
    have parsed := messages.roundTrip msg data written
    rw [typed] at parsed
    simp only [cppHandlerWrapper, parsed]

end Services

section Run
variable {world : World} {net : Net} {log : Log} {allowed : Net → Nat × Action → Prop}
  (run : Run (Network.machine world) allowed log net) {Msg : Type} {messages : Messages Msg}
  {service : ServiceDescriptor}
include run

end Run

/-! A service with one method whose messages have one text field. -/

open WireFormat

def textMessages : Messages (Nat × Bytes) where
  typeOf msg := msg.1
  serialize msg := some (encodeFields [⟨1, .text msg.2⟩])
  parse type data := (readFields data).map fun fields => (type, (textAt 1 fields).getD [])
  roundTrip msg data written := by
    cases written
    rw [readFields_encode]
    rfl

def echo : MethodDescriptor := ⟨0, [3], 10, 11⟩

def echoService : ServiceDescriptor := ⟨[2], [echo], by decide⟩

def echoConfig : Config :=
  linked 0 (fun _ => some echoService.findMethodByName)
    (fun _ payload => (textMessages.parse echo.inputType payload).isSome)

def echoProcesses : World :=
  { twoProcesses with config := fun _ => echoConfig, shared := fun _ => rfl }

def asks (request : Bytes) : List Action :=
  .thread (.app 0) (.connect [1]) :: readsCommand [true] (.app 0) 1 ++
    [.thread (.app 0) .receive, .thread (.app 0) (.request (.dealer 1) [2] [3] request (some 7) (-1)),
      .thread (.app 0) (.sendRequest true)] ++ readsCommand [true, false] (.app 0) 2

def replies (request reply : Bytes) : List Action :=
  readsMessage ([7] :: [] :: requestFrames protobuf 1 [2] [3] request) ++
    [.worker 0, .thread (.worker 0) (.reply (.router 1 [7]) 1 reply)] ++
    readsCommand [true, false] (.worker 0) 1

def talk (request reply : Bytes) : List (Nat × Action) :=
  (asks request).map (0, ·) ++ serving.map (1, ·) ++ (replies request reply).map (1, ·) ++
    (readsMessage ([] :: replyFrames protobuf 1 reply) ++ [Action.worker 0, .worker 0]).map (0, ·)

def echoing : Machine Net (Nat × Action) (Item Nat ConnectionInfo (List Frame) Report) :=
  (Network.machine echoProcesses).guarded fun net turn =>
    turn.1 = 1 → keepsTable echoConfig 1 [([2], .perConnection 5)] (net.state 1).process turn.2 = true

abbrev echoed : Net × Log := reached echoing (talk [10, 1, 4] [10, 1, 4])

def echoes (method : MethodDescriptor) :
    Option (Nat × Bytes → Delivery (Nat × Bytes) → Prop) :=
  if method = echo then some fun request delivery => delivery = .response (11, request.2) else none

def calledWith (payload : Bytes) : Event → Bool
  | .called _ _ _ _ given => given = payload
  | _ => true

def repliesWith (data : Bytes) : Report → Bool
  | .answered _ response => response.outcome = .done data
  | _ => true

theorem implements_echoes : Implements textMessages echoService (.router 1 [7]) 5
    (eventsAt 1 echoed.2) echoes := by
  have called : (happened 1 echoed.2).all (calledWith [10, 1, 4]) = true := by decide +kernel
  have replied : (eventsAt 1 echoed.2).all (repliesWith [10, 1, 4]) = true := by decide +kernel
  intro method listed eventId object payload request same asked parsed thread outcome answered
  rw [echoService, List.mem_singleton] at listed
  have given : payload = [10, 1, 4] := by
    simpa [calledWith] using List.all_eq_true.mp called _ asked
  have made : outcome = .done [10, 1, 4] := by
    simpa [repliesWith] using List.all_eq_true.mp replied _ answered
  rw [listed, given] at parsed
  have text : request = (10, [4]) := by
    have reads : textMessages.parse echo.inputType [10, 1, 4] = some (10, [4]) := by decide +kernel
    rw [reads] at parsed
    exact (Option.some.inj parsed).symm
  rw [made, listed, text]
  refine ⟨.response (11, [4]), .response (11, [4]) [10, 1, 4] rfl (by decide +kernel), ?_⟩
  rw [mayReply, echoes, if_pos rfl]

end Rpcz.TypedCalls
