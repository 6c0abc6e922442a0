import EnumBlocks.Text.Quoted

/-!
UTF-8. Decoding is a machine that takes one byte at a time: between two characters it waits for a
first byte, inside a character it knows which bytes may come next. A fault says where the character
at fault begins, how many of its bytes were read, and why it cannot be one.
-/

namespace EnumBlocks

abbrev Bytes := List UInt8

namespace Utf8

inductive Reason where
  /-- No character begins with this byte. -/
  | invalidStart
  /-- The byte after those read cannot continue the character. -/
  | invalidContinuation
  /-- The bytes end inside a character. -/
  | unexpectedEnd
  deriving DecidableEq, Repr

structure Fault where
  /-- Where the character at fault begins. -/
  position : Nat
  /-- How many of its bytes were read. -/
  length : Nat
  /-- Its first byte. -/
  first : UInt8
  reason : Reason
  deriving DecidableEq, Repr

def Fault.message (fault : Fault) : String :=
  let reason :=
    match fault.reason with
    | .invalidStart => "invalid start byte"
    | .invalidContinuation => "invalid continuation byte"
    | .unexpectedEnd => "unexpected end of data"
  if fault.length = 1 then
    let byte := String.ofList (Text.hexadecimal 2 fault.first.toNat)
    s!"'utf-8' codec can't decode byte 0x{byte} in position {fault.position}: {reason}"
  else
    let last := fault.position + fault.length - 1
    s!"'utf-8' codec can't decode bytes in position {fault.position}-{last}: {reason}"

abbrev ByteRange := UInt8 × UInt8

def ByteRange.contains (range : ByteRange) (byte : UInt8) : Bool :=
  decide (range.1 ≤ byte) && decide (byte ≤ range.2)

/-- The bytes that continue a character in general. -/
def continuation : ByteRange := (0x80, 0xbf)

/-- What a first byte adds to the code point and which bytes must follow it; `none` if no character
begins with it. The second byte is bounded so that no code point has two encodings, none is a
surrogate and none exceeds U+10FFFF. -/
def first? (byte : UInt8) : Option (Nat × List ByteRange) :=
  if byte < 0x80 then some (byte.toNat, [])
  else if byte < 0xc2 then none
  else if byte < 0xe0 then some (byte.toNat - 0xc0, [continuation])
  else if byte = 0xe0 then some (0x0, [(0xa0, 0xbf), continuation])
  else if byte = 0xed then some (0xd, [(0x80, 0x9f), continuation])
  else if byte < 0xf0 then some (byte.toNat - 0xe0, [continuation, continuation])
  else if byte = 0xf0 then some (0x0, [(0x90, 0xbf), continuation, continuation])
  else if byte < 0xf4 then some (byte.toNat - 0xf0, [continuation, continuation, continuation])
  else if byte = 0xf4 then some (0x4, [(0x80, 0x8f), continuation, continuation])
  else none

/-- A character of which some bytes were read. -/
structure Partial where
  /-- Where it begins. -/
  position : Nat
  first : UInt8
  /-- The code point's bits so far. -/
  value : Nat
  /-- The bytes that may come next. -/
  next : ByteRange
  /-- The bytes after that. -/
  later : List ByteRange

/-- Decode from `position` on, inside a character or between two. -/
def decodeFrom : Nat → Option Partial → Bytes → Except Fault Text
  | _, none, [] => .ok []
  | position, some pending, [] =>
      .error ⟨pending.position, position - pending.position, pending.first, .unexpectedEnd⟩
  | position, none, byte :: rest =>
      match first? byte with
      | none => .error ⟨position, 1, byte, .invalidStart⟩
      | some (value, []) =>
          (decodeFrom (position + 1) none rest).map (Char.ofNat value :: ·)
      | some (value, next :: later) =>
          decodeFrom (position + 1) (some ⟨position, byte, value, next, later⟩) rest
  | position, some pending, byte :: rest =>
      if pending.next.contains byte then
        let value := 64 * pending.value + byte.toNat % 64
        match pending.later with
        | [] => (decodeFrom (position + 1) none rest).map (Char.ofNat value :: ·)
        | next :: later =>
            decodeFrom (position + 1)
              (some { pending with value := value, next := next, later := later }) rest
      else
        .error
          ⟨pending.position, position - pending.position, pending.first, .invalidContinuation⟩

def decode (bytes : Bytes) : Except Fault Text :=
  decodeFrom 0 none bytes

def encode (text : Text) : Bytes :=
  text.flatMap String.utf8EncodeChar

def mark : Bytes := [0xef, 0xbb, 0xbf]

end Utf8

end EnumBlocks
