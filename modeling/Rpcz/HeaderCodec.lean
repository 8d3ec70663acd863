import Rpcz.Message
import Rpcz.WireFormat

/-!
The generated code of rpcz.proto as protocol buffers define it, and boost's hash
of a connection_info: concrete values for what the library takes from outside.
-/

namespace Rpcz.HeaderCodec
open Message WireFormat

def requestFields (header : RequestHeader) : List Field :=
  numberField 1 (header.eventId.map UInt64.toNat) ++ textField 3 header.service ++
    textField 4 header.method

def requestOfFields (fields : List Field) : RequestHeader :=
  ⟨(numberAt 1 fields).map UInt64.ofNat, textAt 3 fields, textAt 4 fields⟩

/-- An `int32` is written as the varint of its sign extension to 64 bits. -/
def responseFields (header : ResponseHeader) : List Field :=
  numberField 2 (header.errorCode.map (fun code => code.toInt64.toUInt64.toNat)) ++
    textField 3 header.errorStr ++ numberField 4 (header.eventId.map UInt64.toNat)

def responseOfFields (fields : List Field) : ResponseHeader :=
  ⟨(numberAt 2 fields).map (fun n => (UInt64.ofNat n).toInt64.toInt32), textAt 3 fields,
    (numberAt 4 fields).map UInt64.ofNat⟩

def serializeHeader (header : RpcHeader) : Bytes :=
  encodeFields
    (textField 5 (header.reqHdr.map (fun request => encodeFields (requestFields request))) ++
      textField 6 (header.respHdr.map (fun response => encodeFields (responseFields response))))

def parsePart {Part : Type} (ofFields : List Field → Part) : Option Bytes → Option (Option Part)
  | none => some none
  | some bytes => (readFields bytes).map (fun fields => some (ofFields fields))

def parseHeader (bytes : Bytes) : Option RpcHeader :=
  match readFields bytes with
  | none => none
  | some fields =>
    match parsePart requestOfFields (messageAt 5 fields),
      parsePart responseOfFields (messageAt 6 fields) with
    | some request, some response => some ⟨request, response⟩
    | _, _ => none

/-- The code `protoc` generates for `rpc_header`. -/
def protobuf : Protobuf := ⟨serializeHeader, parseHeader⟩

theorem requestOfFields_requestFields (header : RequestHeader) :
    requestOfFields (requestFields header) = header := by
  obtain ⟨eventId, service, method⟩ := header
  cases eventId <;> cases service <;> cases method <;>
    simp [requestFields, requestOfFields, numberField, textField, numberAt, textAt]

theorem int32_roundTrip (code : Int32) : Int32.ofNat code.toInt64.toUInt64.toNat = code := by
  rw [← Int64.toInt32_ofNat', ← UInt64.toInt64_ofNat', UInt64.ofNat_toNat]
  simp

theorem responseOfFields_responseFields (header : ResponseHeader) :
    responseOfFields (responseFields header) = header := by
  obtain ⟨errorCode, errorStr, eventId⟩ := header
  cases errorCode <;> cases errorStr <;> cases eventId <;>
    simp [responseFields, responseOfFields, numberField, textField, numberAt, textAt,
      int32_roundTrip]

theorem parseHeader_serializeHeader (header : RpcHeader) :
    parseHeader (serializeHeader header) = some header := by
  obtain ⟨request, response⟩ := header
  cases request <;> cases response <;>
    simp [serializeHeader, parseHeader, readFields_encode, textField, messageAt, parsePart,
      requestOfFields_requestFields, responseOfFields_responseFields]

/-- `boost::hash_combine` on a 64-bit `size_t`. -/
def mix (seed hash : UInt64) : UInt64 :=
  seed ^^^ (hash + (0x9e3779b9 : UInt64) + (seed <<< (6 : UInt64)) + (seed >>> (2 : UInt64)))

/-- `hash_value` of a string combines its (signed) characters from seed 0. -/
def stringHash (text : Bytes) : UInt64 :=
  text.foldl (fun seed letter => mix seed letter.toInt8.toInt64.toUInt64) 0

def boostHash : HashCombine :=
  ⟨fun seed value => mix seed (if value then 1 else 0), mix, fun seed text => mix seed (stringHash text)⟩

/-- The library linked with protocol buffers and boost, with `count + 1` worker
threads. -/
def linked (count : Nat) (descriptor : Nat → Option (Bytes → Option Nat))
    (requestParses : Nat → Bytes → Bool) : Config where
  workers := count + 1
  workers_pos := Nat.succ_pos count
  combine := boostHash
  proto := protobuf
  descriptor := descriptor
  requestParses := requestParses

/-- One worker, and no service that the library dispatches to. -/
def plain : Config := linked 0 (fun _ => none) (fun _ _ => true)

end Rpcz.HeaderCodec
