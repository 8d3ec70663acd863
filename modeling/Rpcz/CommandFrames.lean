import Rpcz.BrokerThread
import Rpcz.FrameStream

/-!
The commands to the broker as frames: the writers of connection.cc and
manager.cc, and broker_thread::handle_frontend_socket with the readers it
calls. A pointer travels as its 8 bytes. Whether an index is legal is left to
the broker, which looks it up only after the frames were read.
-/

namespace Rpcz.CommandFrames
open Message FrameStream BrokerThread

/-! The bytes of a number in memory, lowest first. -/

def littleEndian : Nat → Nat → Bytes
  | 0, _ => []
  | width + 1, value => UInt8.ofNat value :: littleEndian width (value / 256)

def valueOf : Bytes → Nat
  | [] => 0
  | low :: rest => low.toNat + 256 * valueOf rest

theorem littleEndian_length (width value : Nat) : (littleEndian width value).length = width := by
  induction width generalizing value with
  | zero => rfl
  | succ width ih => simp [littleEndian, ih]

theorem valueOf_littleEndian {width value : Nat} (fits : value < 256 ^ width) :
    valueOf (littleEndian width value) = value := by
  induction width generalizing value with
  | zero =>
    rw [Nat.pow_zero] at fits
    have zero : value = 0 := by omega
    rw [zero]
    rfl
  | succ width ih =>
    have quotient : value / 256 < 256 ^ width := by
      rw [Nat.div_lt_iff_lt_mul (by decide)]
      simpa [Nat.pow_succ] using fits
    rw [littleEndian, valueOf, ih quotient, UInt8.toNat_ofNat']
    omega

def uint64Bytes (value : UInt64) : Bytes := littleEndian 8 value.toNat

/-! internal_commands.hpp. -/

def kRequest : UInt8 := 0x01
def kConnect : UInt8 := 0x02
def kBind : UInt8 := 0x03
def kUnbind : UInt8 := 0x04
def kReply : UInt8 := 0x05
def kRunClosure : UInt8 := 0x06
def kRegisterSvc : UInt8 := 0x07
def kQuit : UInt8 := 0x0f

/-- The values of a `connection_info` that a connection carries. -/
structure Address where
  info : ConnectionInfo
  fits : info.index < 2 ^ 64
  dealer : info.isRouter = false → info.sender = []

/-! The senders of zmq_utils.hpp; `more` is `ZMQ_SNDMORE`. -/

def sendEmptyMessage (more : Bool) : List (MessagePart Bytes) := [⟨[], more⟩]
def sendString (text : Bytes) (more : Bool) : List (MessagePart Bytes) := [⟨text, more⟩]
def sendChar (ch : UInt8) (more : Bool) : List (MessagePart Bytes) := [⟨[ch], more⟩]
def sendUint64 (value : UInt64) (more : Bool) : List (MessagePart Bytes) := [⟨uint64Bytes value, more⟩]
def sendPointer (pointer : UInt64) (more : Bool) : List (MessagePart Bytes) := sendUint64 pointer more

def writeVectorToSocket (data : List Bytes) (more : Bool) : List (MessagePart Bytes) :=
  data.mapIdx (fun i frame => ⟨frame, more || i < data.length - 1⟩)

def writeConnectionInfo (info : ConnectionInfo) (more : Bool) : List (MessagePart Bytes) :=
  sendChar (if info.isRouter then 1 else 0) true ++
    if info.isRouter then
      sendUint64 (UInt64.ofNat info.index) true ++ sendString info.sender more
    else sendUint64 (UInt64.ofNat info.index) more

/-- A call of the library that writes a command. A request or a reply carries at
least one data frame. -/
inductive Issue where
  | joinThreads
  | connect (endpoint : Bytes)
  | bind (endpoint : Bytes)
  | unbind (endpoint : Bytes)
  | add (closure : UInt64)
  | request (address : Address) (ctrl : UInt64) (first : Bytes) (others : List Bytes)
  | reply (address : Address) (first : Bytes) (others : List Bytes)
  | registerService (address : Address) (name : Bytes) (svc : UInt64)

def Issue.write : Issue → Except Halt (List (MessagePart Bytes))
  | .joinThreads => .ok (sendEmptyMessage true ++ sendChar kQuit false)
  | .connect endpoint =>
    .ok (sendEmptyMessage true ++ sendChar kConnect true ++ sendString endpoint false)
  | .bind endpoint =>
    .ok (sendEmptyMessage true ++ sendChar kBind true ++ sendString endpoint false)
  | .unbind endpoint =>
    .ok (sendEmptyMessage true ++ sendChar kUnbind true ++ sendString endpoint false)
  | .add closure =>
    .ok (sendEmptyMessage true ++ sendChar kRunClosure true ++ sendPointer closure false)
  | .request address ctrl first others =>
    if ctrl = 0 then .error .checkFailed
    else
      .ok (sendEmptyMessage true ++ sendChar kRequest true ++
        writeConnectionInfo address.info true ++ sendPointer ctrl true ++
        writeVectorToSocket (first :: others) false)
  | .reply address first others =>
    .ok (sendEmptyMessage true ++ sendChar kReply true ++ writeConnectionInfo address.info true ++
      writeVectorToSocket (first :: others) false)
  | .registerService address name svc =>
    if svc = 0 then .error .checkFailed
    else
      .ok (sendEmptyMessage true ++ sendChar kRegisterSvc true ++
        writeConnectionInfo address.info true ++ sendString name true ++ sendPointer svc false)

/-- The handler the broker calls, and what `forward_to` puts on the target socket. -/
inductive Invocation where
  | handleQuitCommand
  | handleConnectCommand (sender endpoint : Bytes)
  | handleBindCommand (sender endpoint : Bytes)
  | handleUnbindCommand (sender endpoint : Bytes)
  | addClosure (closure : UInt64)
  | sendRequest (info : ConnectionInfo) (ctrl : UInt64) (put : List (MessagePart Bytes))
  | sendReply (info : ConnectionInfo) (put : List (MessagePart Bytes))
  | registerService (info : ConnectionInfo) (name : Bytes) (svc : UInt64)
deriving DecidableEq

def interpretChar (msg : Bytes) : Reader Bytes UInt8 := do
  check (msg.length = 1)
  return msg.headD 0

/-- `interpret_message<uint64>`, also for pointers. -/
def interpretUint64 (msg : Bytes) : Reader Bytes UInt64 := do
  check (msg.length = 8)
  return UInt64.ofNat (valueOf msg)

/-- The sender stays that of a fresh `connection_info` for a dealer. -/
def readConnectionInfo : Reader Bytes ConnectionInfo := do
  check (← hasMore)
  let isRouter ← interpretChar (← next)
  check (← hasMore)
  let index ← interpretUint64 (← next)
  if isRouter = 0 then return ⟨false, index.toNat, []⟩
  check (← hasMore)
  let sender ← next
  return ⟨true, index.toNat, sender⟩

def forwardTo (info : ConnectionInfo) : Reader Bytes (List (MessagePart Bytes)) := do
  if info.isRouter then
    return sendString info.sender true ++ sendEmptyMessage true ++ (← forwardMessages)
  else return sendEmptyMessage true ++ (← forwardMessages)

def sendRequest : Reader Bytes Invocation := do
  check (← hasMore)
  let info ← readConnectionInfo
  check (← hasMore)
  let ctrl ← interpretUint64 (← next)
  check (ctrl ≠ 0)
  return .sendRequest info ctrl (← forwardTo info)

def sendReply : Reader Bytes Invocation := do
  check (← hasMore)
  let info ← readConnectionInfo
  return .sendReply info (← forwardTo info)

def registerService : Reader Bytes Invocation := do
  check (← hasMore)
  let info ← readConnectionInfo
  check (← hasMore)
  let name ← next
  check (← hasMore)
  let svc ← interpretUint64 (← next)
  check (!(← hasMore))
  check (svc ≠ 0)
  return .registerService info name svc

def handleFrontendSocket : Reader Bytes Invocation := do
  let sender ← next
  let delimiter ← next
  check (delimiter.length = 0)
  let command ← interpretChar (← next)
  if command = kQuit then return .handleQuitCommand
  else if command = kConnect then return .handleConnectCommand sender (← next)
  else if command = kBind then return .handleBindCommand sender (← next)
  else if command = kUnbind then return .handleUnbindCommand sender (← next)
  else if command = kRequest then sendRequest
  else if command = kReply then sendReply
  else if command = kRunClosure then return .addClosure (← interpretUint64 (← next))
  else if command = kRegisterSvc then registerService
  else
    check false
    return .handleQuitCommand

/-! The frames of a command, and what the broker makes of them. -/

def infoFrames (info : ConnectionInfo) : List Bytes :=
  [if info.isRouter then 1 else 0] :: uint64Bytes (UInt64.ofNat info.index) ::
    if info.isRouter then [info.sender] else []

def Issue.frames : Issue → List Bytes
  | .joinThreads => [[], [kQuit]]
  | .connect endpoint => [[], [kConnect], endpoint]
  | .bind endpoint => [[], [kBind], endpoint]
  | .unbind endpoint => [[], [kUnbind], endpoint]
  | .add closure => [[], [kRunClosure], uint64Bytes closure]
  | .request address ctrl first others =>
    [] :: [kRequest] :: (infoFrames address.info ++ uint64Bytes ctrl :: first :: others)
  | .reply address first others =>
    [] :: [kReply] :: (infoFrames address.info ++ first :: others)
  | .registerService address name svc =>
    [] :: [kRegisterSvc] :: (infoFrames address.info ++ [name, uint64Bytes svc])

/-- The handler that matches the call, with its arguments; a request or a reply
puts the data frames on the socket as one message behind the envelope. -/
def Issue.invocation (sender : Bytes) : Issue → Invocation
  | .joinThreads => .handleQuitCommand
  | .connect endpoint => .handleConnectCommand sender endpoint
  | .bind endpoint => .handleBindCommand sender endpoint
  | .unbind endpoint => .handleUnbindCommand sender endpoint
  | .add closure => .addClosure closure
  | .request address ctrl first others =>
    .sendRequest address.info ctrl (message (Broker.wireFrames address.info (first :: others)))
  | .reply address first others =>
    .sendReply address.info (message (Broker.wireFrames address.info (first :: others)))
  | .registerService address name svc => .registerService address.info name svc

section Writers

theorem writeVectorToSocket_message (data : List Bytes) :
    writeVectorToSocket data false = message data := by
  unfold writeVectorToSocket
  induction data with
  | nil => rfl
  | cons frame rest ih =>
    rw [List.mapIdx_cons, message_cons, ← ih]
    congr 1
    · cases rest <;> rfl
    · congr 1
      funext i other
      simp only [List.length_cons, Bool.false_or, MessagePart.mk.injEq, true_and, decide_eq_decide]
      omega

theorem writeConnectionInfo_message (info : ConnectionInfo) :
    writeConnectionInfo info true = (infoFrames info).map (fun frame => ⟨frame, true⟩) := by
  unfold writeConnectionInfo infoFrames
  cases info.isRouter <;> rfl

theorem write_message (issue : Issue) {parts : List (MessagePart Bytes)} (issued : issue.write = .ok parts) :
    parts = message issue.frames := by
  cases issue with
  | joinThreads | connect | bind | unbind | add =>
    simp only [Issue.write, Except.ok.injEq] at issued
    rw [← issued]
    rfl
  | request address ctrl first others =>
    simp only [Issue.write] at issued
    split at issued
    · cases issued
    · rw [Except.ok.injEq] at issued
      have split := message_append ([] :: [kRequest] :: (infoFrames address.info ++ [uint64Bytes ctrl]))
        (List.cons_ne_nil first others)
      rw [← issued, writeVectorToSocket_message, writeConnectionInfo_message]
      simpa [Issue.frames, sendEmptyMessage, sendChar, sendPointer, sendUint64] using split.symm
  | reply address first others =>
    simp only [Issue.write, Except.ok.injEq] at issued
    have split := message_append ([] :: [kReply] :: infoFrames address.info)
      (List.cons_ne_nil first others)
    rw [← issued, writeVectorToSocket_message, writeConnectionInfo_message]
    simpa [Issue.frames, sendEmptyMessage, sendChar] using split.symm
  | registerService address name svc =>
    simp only [Issue.write] at issued
    split at issued
    · cases issued
    · rw [Except.ok.injEq] at issued
      have split := message_append ([] :: [kRegisterSvc] :: (infoFrames address.info ++ [name]))
        (List.cons_ne_nil (uint64Bytes svc) [])
      rw [← issued, writeConnectionInfo_message]
      simpa [Issue.frames, sendEmptyMessage, sendChar, sendPointer, sendString, sendUint64, message]
        using split.symm

end Writers

section Readers
variable {frames : List Bytes} {rest : List (MessagePart Bytes)} {iter : Iter Bytes}

@[simp] theorem interpretChar_single (ch : UInt8) : interpretChar [ch] iter = .ok (ch, iter) := rfl

@[simp] theorem interpretUint64_bytes (value : UInt64) :
    interpretUint64 (uint64Bytes value) iter = .ok (value, iter) := by
  have length := littleEndian_length 8 value.toNat
  have read : valueOf (littleEndian 8 value.toNat) = value.toNat :=
    valueOf_littleEndian value.toNat_lt
  unfold interpretUint64 uint64Bytes
  simp [length, read, check]

theorem readConnectionInfo_frames (address : Address) :
    readConnectionInfo (Iter.at (infoFrames address.info ++ frames) rest) =
      .ok (address.info, Iter.at frames rest) := by
  obtain ⟨⟨isRouter, index, sender⟩, fits, dealer⟩ := address
  have whole : (UInt64.ofNat index).toNat = index := UInt64.toNat_ofNat_of_lt' fits
  cases isRouter with
  | true =>
    simp [readConnectionInfo, infoFrames, whole]
  | false =>
    have empty : sender = [] := dealer rfl
    simp [readConnectionInfo, infoFrames, whole, empty]

theorem forwardTo_at (info : ConnectionInfo) :
    forwardTo info (Iter.at (frame :: frames) rest) =
      .ok (message (Broker.wireFrames info (frame :: frames)), Iter.at [] rest) := by
  unfold forwardTo Broker.wireFrames
  cases info.isRouter with
  | true =>
    simp [forwardMessages_at,
      sendString, sendEmptyMessage, message]
  | false =>
    simp [forwardMessages_at,
      sendEmptyMessage, message]

theorem sendRequest_at (address : Address) {ctrl : UInt64} (present : ctrl ≠ 0) (first : Bytes)
    (others : List Bytes) :
    sendRequest (Iter.at (infoFrames address.info ++ uint64Bytes ctrl :: first :: others) rest) =
      .ok (.sendRequest address.info ctrl
        (message (Broker.wireFrames address.info (first :: others))), Iter.at [] rest) := by
  have more : (infoFrames address.info ++ uint64Bytes ctrl :: first :: others).isEmpty = false := rfl
  unfold sendRequest
  simp [more,
    readConnectionInfo_frames, forwardTo_at, present]

theorem sendReply_at (address : Address) (first : Bytes) (others : List Bytes) :
    sendReply (Iter.at (infoFrames address.info ++ first :: others) rest) =
      .ok (.sendReply address.info (message (Broker.wireFrames address.info (first :: others))),
        Iter.at [] rest) := by
  have more : (infoFrames address.info ++ first :: others).isEmpty = false := rfl
  unfold sendReply
  simp [more,
    readConnectionInfo_frames, forwardTo_at]

theorem registerService_at (address : Address) (name : Bytes) {svc : UInt64} (present : svc ≠ 0) :
    registerService (Iter.at (infoFrames address.info ++ [name, uint64Bytes svc]) rest) =
      .ok (.registerService address.info name svc, Iter.at [] rest) := by
  have more : (infoFrames address.info ++ [name, uint64Bytes svc]).isEmpty = false := rfl
  unfold registerService
  simp [more,
    readConnectionInfo_frames, present]

theorem handleFrontendSocket_at (sender : Bytes) (issue : Issue) {parts : List (MessagePart Bytes)}
    (issued : issue.write = .ok parts) :
    handleFrontendSocket (Iter.at (sender :: issue.frames) rest) =
      .ok (issue.invocation sender, Iter.at [] rest) := by
  unfold handleFrontendSocket
  cases issue with
  | joinThreads | connect | bind | unbind | add =>
    simp [Issue.frames, Issue.invocation, kQuit, kConnect, kBind, kUnbind, kRunClosure, kRequest, kReply]
  | request address ctrl first others =>
    simp only [Issue.write] at issued
    split at issued
    · cases issued
    · next present =>
      simp [Issue.frames, Issue.invocation, kQuit, kConnect, kBind,
        kUnbind, kRequest, sendRequest_at address present]
  | reply address first others =>
    simp [Issue.frames, Issue.invocation, kQuit, kConnect, kBind,
      kUnbind, kRequest, kReply, sendReply_at]
  | registerService address name svc =>
    simp only [Issue.write] at issued
    split at issued
    · cases issued
    · next present =>
      simp [Issue.frames, Issue.invocation, kQuit, kConnect, kBind,
        kUnbind, kRequest, kReply, kRunClosure, kRegisterSvc, registerService_at address name present]

end Readers

/-! The command the broker of the process model handles. -/

structure Objects where
  controller : UInt64 → Controller
  service : UInt64 → ServiceObject
  closure : UInt64 → Nat

def Issue.command (objects : Objects) : Issue → Command
  | .joinThreads => .quit
  | .connect endpoint => .connect endpoint
  | .bind endpoint => .bind endpoint
  | .unbind endpoint => .unbind endpoint
  | .add closure => .runClosure (objects.closure closure)
  | .request address ctrl first others =>
    .request address.info (objects.controller ctrl) (first :: others)
  | .reply address first others => .reply address.info (first :: others)
  | .registerService address name svc =>
    .registerSvc address.info name (objects.service svc)

def dataFrames (info : ConnectionInfo) (put : List (MessagePart Bytes)) : List Frame :=
  (put.map MessagePart.frame).drop (if info.isRouter then 2 else 1)

def Invocation.command (objects : Objects) : Invocation → Command
  | .handleQuitCommand => .quit
  | .handleConnectCommand _ endpoint => .connect endpoint
  | .handleBindCommand _ endpoint => .bind endpoint
  | .handleUnbindCommand _ endpoint => .unbind endpoint
  | .addClosure closure => .runClosure (objects.closure closure)
  | .sendRequest info ctrl put => .request info (objects.controller ctrl) (dataFrames info put)
  | .sendReply info put => .reply info (dataFrames info put)
  | .registerService info name svc => .registerSvc info name (objects.service svc)

theorem message_frames (frames : List Bytes) : (message frames).map MessagePart.frame = frames := by
  induction frames with
  | nil => rfl
  | cons frame rest ih => rw [message_cons, List.map_cons, ih]

theorem dataFrames_wireFrames (info : ConnectionInfo) (data : List Frame) :
    dataFrames info (message (Broker.wireFrames info data)) = data := by
  unfold dataFrames
  rw [message_frames, Broker.wireFrames]
  cases info.isRouter <;> rfl

theorem invocation_command (objects : Objects) (sender : Bytes) (issue : Issue) :
    (issue.invocation sender).command objects = issue.command objects := by
  cases issue <;> simp [Issue.invocation, Invocation.command, Issue.command, dataFrames_wireFrames]

/-- The ROUTER puts the identity of the sender in front of what the call wrote;
handling that calls the matching handler, which gets the command of the process
model, and leaves the next command whole. -/
theorem command_roundTrip (sender : Bytes) (issue : Issue) {parts : List (MessagePart Bytes)}
    (issued : issue.write = .ok parts) (later : List (MessagePart Bytes)) :
    withIterator handleFrontendSocket (⟨sender, true⟩ :: parts ++ later) =
      .ok (issue.invocation sender, later) ∧
    ∀ objects, (issue.invocation sender).command objects = issue.command objects := by
  refine ⟨?_, fun objects => invocation_command objects sender issue⟩
  have whole : (⟨sender, true⟩ :: parts : List (MessagePart Bytes)) = message (sender :: issue.frames) := by
    rw [write_message issue issued, message_cons]
    cases issue <;> rfl
  rw [whole]
  exact withIterator_message (List.cons_ne_nil _ _) (handleFrontendSocket_at sender issue issued)

/-- A request to peer 7 of router 1, with a bind behind it in the pipe. -/
def requestIssue : Issue := .request ⟨.router 1 [7], by decide, by decide⟩ 4096 [1, 2] [[], [3]]

theorem command_roundTrip_request :
    withIterator handleFrontendSocket
        (⟨[5], true⟩ :: message requestIssue.frames ++
          message ([6] :: (Issue.bind [9]).frames)) =
      .ok (.sendRequest (.router 1 [7]) 4096
          [⟨[7], true⟩, ⟨[], true⟩, ⟨[1, 2], true⟩, ⟨[], true⟩, ⟨[3], false⟩],
        message ([6] :: (Issue.bind [9]).frames)) :=
  (command_roundTrip [5] requestIssue (by decide) (message ([6] :: (Issue.bind [9]).frames))).1

end Rpcz.CommandFrames
