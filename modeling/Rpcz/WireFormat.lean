import Mathlib.Algebra.Group.Nat.Defs
import Mathlib.Data.List.Basic

/-!
The wire format of protocol buffers: base 128 varints, and messages as lists of
numbered fields that hold a varint or a length-delimited text. Reading gives
back what was written.
-/

namespace Rpcz.WireFormat

/-- Seven payload bits a byte, the low ones first; all bytes but the last have
their high bit set. `fuel` bounds the number of further bytes. -/
def varintFrom : Nat → Nat → List UInt8
  | 0, n => [UInt8.ofNat n]
  | fuel + 1, n =>
    if n < 128 then [UInt8.ofNat n]
    else UInt8.ofNat (n % 128 + 128) :: varintFrom fuel (n / 128)

def varint (n : Nat) : List UInt8 := varintFrom n.log2 n

def readVarint : List UInt8 → Option (Nat × List UInt8)
  | [] => none
  | byte :: rest =>
    if byte.toNat < 128 then some (byte.toNat, rest)
    else (readVarint rest).map (fun high => (byte.toNat - 128 + 128 * high.1, high.2))

theorem readVarint_varintFrom (fuel n : Nat) (enough : n < 128 * 2 ^ fuel) (rest : List UInt8) :
    readVarint (varintFrom fuel n ++ rest) = some (n, rest) := by
  induction fuel generalizing n with
  | zero =>
    have small : n < 128 := by omega
    have byte : (UInt8.ofNat n).toNat = n := by
      rw [UInt8.toNat_ofNat']
      omega
    simp [varintFrom, readVarint, byte, small]
  | succ fuel ih =>
    by_cases small : n < 128
    · have byte : (UInt8.ofNat n).toNat = n := by
        rw [UInt8.toNat_ofNat']
        omega
      simp [varintFrom, readVarint, byte, small]
    · have byte : (UInt8.ofNat (n % 128 + 128)).toNat = n % 128 + 128 := by
        rw [UInt8.toNat_ofNat']
        omega
      have quotient : n / 128 < 128 * 2 ^ fuel := by
        rw [Nat.pow_succ] at enough
        omega
      simp only [varintFrom, small, if_false, List.cons_append, readVarint, byte, ih _ quotient,
        Option.map_some]
      rw [if_neg (by omega)]
      congr 2
      omega

theorem readVarint_varint (n : Nat) (rest : List UInt8) :
    readVarint (varint n ++ rest) = some (n, rest) := by
  refine readVarint_varintFrom _ _ ?_ rest
  have bound := Nat.lt_log2_self (n := n)
  rw [Nat.pow_succ] at bound
  omega

theorem varint_ne_nil (n : Nat) : varint n ≠ [] := by
  unfold varint
  cases n.log2 with
  | zero => simp [varintFrom]
  | succ fuel =>
    simp only [varintFrom]
    split <;> simp

inductive Value where
  | number (n : Nat)
  | text (bytes : List UInt8)
deriving DecidableEq

structure Field where
  number : Nat
  value : Value
deriving DecidableEq

/-- The tag holds the field number and the wire type: 0 for a varint, 2 for a
length-delimited text. -/
def Field.encode (field : Field) : List UInt8 :=
  match field.value with
  | .number n => varint (8 * field.number) ++ varint n
  | .text bytes => varint (8 * field.number + 2) ++ varint bytes.length ++ bytes

def encodeFields (fields : List Field) : List UInt8 :=
  fields.flatMap Field.encode

def readField (bytes : List UInt8) : Option (Field × List UInt8) :=
  match readVarint bytes with
  | none => none
  | some (tag, rest) =>
    if tag % 8 = 0 then
      (readVarint rest).map (fun found => (⟨tag / 8, .number found.1⟩, found.2))
    else if tag % 8 = 2 then
      match readVarint rest with
      | none => none
      | some (length, text) =>
        if length ≤ text.length then
          some (⟨tag / 8, .text (text.take length)⟩, text.drop length)
        else none
    else none

def readFieldsFrom : Nat → List UInt8 → Option (List Field)
  | _, [] => some []
  | 0, _ :: _ => none
  | fuel + 1, byte :: bytes =>
    match readField (byte :: bytes) with
    | none => none
    | some (field, rest) => (readFieldsFrom fuel rest).map (fun fields => field :: fields)

/-- Every field takes a byte, so the length bounds the number of fields. -/
def readFields (bytes : List UInt8) : Option (List Field) :=
  readFieldsFrom bytes.length bytes

theorem readField_encode (field : Field) (rest : List UInt8) :
    readField (field.encode ++ rest) = some (field, rest) := by
  obtain ⟨number, value⟩ := field
  cases value with
  | number n =>
    have kind : 8 * number % 8 = 0 := by omega
    have index : 8 * number / 8 = number := by omega
    simp [Field.encode, readField, readVarint_varint, kind, index]
  | text bytes =>
    have kind : (8 * number + 2) % 8 = 2 := by omega
    have index : (8 * number + 2) / 8 = number := by omega
    simp [Field.encode, readField, readVarint_varint, kind, index]

theorem encode_ne_nil (field : Field) : field.encode ≠ [] := by
  unfold Field.encode
  split <;> simp [varint_ne_nil]

theorem length_le_encodeFields (fields : List Field) :
    fields.length ≤ (encodeFields fields).length := by
  induction fields with
  | nil => simp
  | cons field rest ih =>
    have positive := List.length_pos_iff.mpr (encode_ne_nil field)
    simp only [encodeFields, List.flatMap_cons, List.length_append, List.length_cons] at ih ⊢
    omega

theorem readFieldsFrom_encode (fuel : Nat) (fields : List Field) (enough : fields.length ≤ fuel) :
    readFieldsFrom fuel (encodeFields fields) = some fields := by
  induction fields generalizing fuel with
  | nil => cases fuel <;> rfl
  | cons field rest ih =>
    cases fuel with
    | zero => simp at enough
    | succ fuel =>
      have single := readField_encode field (encodeFields rest)
      have shape : encodeFields (field :: rest) = field.encode ++ encodeFields rest := rfl
      rw [shape]
      cases bytes : field.encode ++ encodeFields rest with
      | nil => simp [encode_ne_nil] at bytes
      | cons byte more =>
        rw [bytes] at single
        simp only [readFieldsFrom, single]
        rw [ih fuel (by simpa using enough)]
        rfl

theorem readFields_encode (fields : List Field) : readFields (encodeFields fields) = some fields :=
  readFieldsFrom_encode _ _ (length_le_encodeFields fields)

/-! ## Looking fields up: the last occurrence of a scalar counts, and the
occurrences of an embedded message are merged. -/

def numberAt (number : Nat) (fields : List Field) : Option Nat :=
  fields.reverse.findSome? fun field =>
    match field.value with
    | .number n => if field.number = number then some n else none
    | .text _ => none

def textAt (number : Nat) (fields : List Field) : Option (List UInt8) :=
  fields.reverse.findSome? fun field =>
    match field.value with
    | .text bytes => if field.number = number then some bytes else none
    | .number _ => none

def messageAt (number : Nat) (fields : List Field) : Option (List UInt8) :=
  match fields.filterMap (fun field =>
    match field.value with
    | .text bytes => if field.number = number then some bytes else none
    | .number _ => none) with
  | [] => none
  | parts => some parts.flatten

def numberField (number : Nat) (value : Option Nat) : List Field :=
  (value.map (fun n => (⟨number, .number n⟩ : Field))).toList

def textField (number : Nat) (value : Option (List UInt8)) : List Field :=
  (value.map (fun bytes => (⟨number, .text bytes⟩ : Field))).toList

end Rpcz.WireFormat
