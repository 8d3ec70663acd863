import Mathlib.Data.List.Basic

/-!
Multipart messages on a socket and the iterator that reads them frame by frame.
A part carries the more-flag of its frame. Nothing but the flags marks where a
message ends, so a reader that stops too early or too late takes part of the
next message.
-/

namespace Rpcz.FrameStream

variable {Frame : Type}

structure MessagePart (Frame : Type) where
  frame : Frame
  more : Bool
deriving DecidableEq

/-- The parts of one message: every frame but the last announces another one. -/
def message : List Frame → List (MessagePart Frame)
  | [] => []
  | [last] => [⟨last, false⟩]
  | frame :: next :: rest => ⟨frame, true⟩ :: message (next :: rest)

theorem message_cons (frame : Frame) (rest : List Frame) :
    message (frame :: rest) = ⟨frame, !rest.isEmpty⟩ :: message rest := by
  cases rest <;> rfl

theorem message_append (front : List Frame) {back : List Frame} (nonempty : back ≠ []) :
    message (front ++ back) = front.map (fun frame => ⟨frame, true⟩) ++ message back := by
  induction front with
  | nil => rfl
  | cons frame rest ih =>
    have more : (rest ++ back).isEmpty = false := by
      cases rest <;> simp_all
    rw [List.cons_append, message_cons, more, ih]
    rfl

/-- Why a read does not return: no part has arrived, or a check fails. -/
inductive Halt where
  | blocked
  | checkFailed
deriving DecidableEq, Repr

/-- The parts still unread on the socket, and the more-flag of the last one read. -/
structure Iter (Frame : Type) where
  unread : List (MessagePart Frame)
  hasMore : Bool

abbrev Reader (Frame : Type) := StateT (Iter Frame) (Except Halt)

def next : Reader Frame Frame := fun iter =>
  match iter.unread with
  | [] => .error .blocked
  | part :: rest => .ok (part.frame, ⟨rest, part.more⟩)

def hasMore : Reader Frame Bool := fun iter => .ok (iter.hasMore, iter)

def check (condition : Bool) : Reader Frame Unit := fun iter =>
  if condition then .ok ((), iter) else .error .checkFailed

def drain : List (MessagePart Frame) → Bool → Except Halt (List (MessagePart Frame))
  | unread, false => .ok unread
  | [], true => .error .blocked
  | part :: rest, true => drain rest part.more

/-- Sends on what is left of the message; the flags are read again for each part. -/
def forwardFrom : List (MessagePart Frame) → Bool → Except Halt (List (MessagePart Frame) × Iter Frame)
  | unread, false => .ok ([], ⟨unread, false⟩)
  | [], true => .error .blocked
  | part :: rest, true =>
    match forwardFrom rest part.more with
    | .error halt => .error halt
    | .ok (sent, iter) => .ok (⟨part.frame, part.more⟩ :: sent, iter)

def forwardMessages : Reader Frame (List (MessagePart Frame)) := fun iter =>
  forwardFrom iter.unread iter.hasMore

def withIterator {Value : Type} (body : Reader Frame Value) (unread : List (MessagePart Frame)) :
    Except Halt (Value × List (MessagePart Frame)) :=
  match body ⟨unread, true⟩ with
  | .error halt => .error halt
  | .ok (value, iter) =>
    match drain iter.unread iter.hasMore with
    | .error halt => .error halt
    | .ok left => .ok (value, left)

/-! Inside a message the iterator is at the frames that are left of it. -/

def Iter.at (frames : List Frame) (rest : List (MessagePart Frame)) : Iter Frame :=
  ⟨message frames ++ rest, !frames.isEmpty⟩

section Rules
variable {Value Result : Type} {frames : List Frame} {rest : List (MessagePart Frame)}

@[simp] theorem next_at (frame : Frame) :
    next (Iter.at (frame :: frames) rest) = .ok (frame, Iter.at frames rest) := by
  simp [Iter.at, next, message_cons]

@[simp] theorem hasMore_at :
    hasMore (Iter.at frames rest) = .ok (!frames.isEmpty, Iter.at frames rest) := rfl

@[simp] theorem check_true {iter : Iter Frame} : check true iter = .ok ((), iter) := rfl

/-! Readers in a row. -/

@[simp] theorem pure_apply (value : Value) (iter : Iter Frame) :
    (pure value : Reader Frame Value) iter = .ok (value, iter) := rfl

@[simp] theorem bind_apply (read : Reader Frame Value) (use : Value → Reader Frame Result)
    (iter : Iter Frame) :
    (read >>= use) iter =
      match read iter with
      | .error halt => .error halt
      | .ok (value, later) => use value later := by
  change (do let pair ← read iter; use pair.1 pair.2) = _
  cases read iter <;> rfl

@[simp] theorem map_apply (read : Reader Frame Value) (convert : Value → Result)
    (iter : Iter Frame) :
    (convert <$> read) iter =
      match read iter with
      | .error halt => .error halt
      | .ok (value, later) => .ok (convert value, later) := by
  change (do let pair ← read iter; pure (convert pair.1, pair.2)) = _
  cases read iter <;> rfl

theorem drain_message : drain (message frames ++ rest) (!frames.isEmpty) = .ok rest := by
  induction frames with
  | nil => cases rest <;> rfl
  | cons frame frames ih =>
    rw [message_cons, List.cons_append]
    exact ih

theorem forwardMessages_at :
    forwardMessages (Iter.at frames rest) = .ok (message frames, Iter.at [] rest) := by
  unfold forwardMessages Iter.at
  induction frames with
  | nil => cases rest <;> rfl
  | cons frame frames ih =>
    rw [message_cons, List.cons_append]
    simp only [List.isEmpty_cons, Bool.not_false, forwardFrom]
    rw [ih]

theorem withIterator_message {body : Reader Frame Value} {value : Value} {left : List Frame}
    (nonempty : frames ≠ [])
    (done : body (Iter.at frames rest) = .ok (value, Iter.at left rest)) :
    withIterator body (message frames ++ rest) = .ok (value, rest) := by
  have start : (⟨message frames ++ rest, true⟩ : Iter Frame) = Iter.at frames rest := by
    cases frames with
    | nil => exact absurd rfl nonempty
    | cons => rfl
  unfold withIterator
  rw [start, done]
  simp only [Iter.at, drain_message]

end Rules

/-- Calls the block once for each of `count` messages. -/
def repeated {Value : Type} (block : List (MessagePart Frame) → Except Halt (Value × List (MessagePart Frame))) :
    Nat → List (MessagePart Frame) → Except Halt (List Value × List (MessagePart Frame))
  | 0, unread => .ok ([], unread)
  | count + 1, unread =>
    match block unread with
    | .error halt => .error halt
    | .ok (value, later) =>
      match repeated block count later with
      | .error halt => .error halt
      | .ok (values, left) => .ok (value :: values, left)

theorem repeated_messages {Value : Type}
    (block : List (MessagePart Frame) → Except Halt (Value × List (MessagePart Frame)))
    (meaning : List Frame → Value) (messages : List (List Frame)) (rest : List (MessagePart Frame))
    (takes : ∀ frames ∈ messages, ∀ later, block (message frames ++ later) =
      .ok (meaning frames, later)) :
    repeated block messages.length (messages.flatMap message ++ rest) =
      .ok (messages.map meaning, rest) := by
  induction messages with
  | nil => rfl
  | cons frames messages ih =>
    have first := takes frames List.mem_cons_self (messages.flatMap message ++ rest)
    have others := ih (fun other member => takes other (List.mem_cons_of_mem _ member))
    simp only [List.length_cons, List.flatMap_cons, List.append_assoc, repeated, first, others,
      List.map_cons]

end Rpcz.FrameStream
