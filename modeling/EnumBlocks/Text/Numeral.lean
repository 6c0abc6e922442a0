import EnumBlocks.Text.Blank

/-!
Decimal numerals in the digits of any script, and the whole numbers written with them.
-/

namespace EnumBlocks.Text

/-- The digits zero beyond ASCII; each is followed by the other nine digits of its script. -/
def zeroTable : List Nat :=
  [0x660, 0x6f0, 0x7c0, 0x966, 0x9e6, 0xa66, 0xae6, 0xb66, 0xbe6, 0xc66, 0xce6, 0xd66, 0xde6,
   0xe50, 0xed0, 0xf20, 0x1040, 0x1090, 0x17e0, 0x1810, 0x1946, 0x19d0, 0x1a80, 0x1a90, 0x1b50,
   0x1bb0, 0x1c40, 0x1c50, 0xa620, 0xa8d0, 0xa900, 0xa9d0, 0xa9f0, 0xaa50, 0xabf0, 0xff10,
   0x104a0, 0x10d30, 0x11066, 0x110f0, 0x11136, 0x111d0, 0x112f0, 0x11450, 0x114d0, 0x11650,
   0x116c0, 0x11730, 0x118e0, 0x11950, 0x11c50, 0x11d50, 0x11da0, 0x16a60, 0x16ac0, 0x16b50,
   0x1d7ce, 0x1d7d8, 0x1d7e2, 0x1d7ec, 0x1d7f6, 0x1e140, 0x1e2f0, 0x1e950, 0x1fbf0]
def digit? (c : Char) : Option Nat :=
  if c.isDigit then some (c.toNat - 0x30)
  else
    (zeroTable.find? fun first => decide (first ≤ c.toNat) && decide (c.toNat < first + 10)).map
      (c.toNat - ·)

def isDigit (c : Char) : Bool :=
  (digit? c).isSome

/-- The digits of a numeral. It begins and ends with a digit, and single low lines may stand
between digits. -/
def digits? : Text → Option (List Nat)
  | [] => none
  | [c] => (digit? c).map ([·])
  | c :: '_' :: rest => (digit? c).bind fun digit => (digits? rest).map (digit :: ·)
  | c :: rest => (digit? c).bind fun digit => (digits? rest).map (digit :: ·)

def maxDigits : Nat := 4300

def natural? (text : Text) : Option Nat :=
  (digits? text).bind fun digits =>
    if digits.length ≤ maxDigits then some (digits.foldl (fun n digit => 10 * n + digit) 0)
    else none

/-- The blanks that may surround a whole number: all but the information separators. -/
def isNumberBlank (c : Char) : Bool :=
  isBlank c && !(decide (0x1c ≤ c.toNat) && decide (c.toNat ≤ 0x1f))

/-- Read a whole number, signed or not. Blanks may surround it but not follow its sign. -/
def integer? (text : Text) : Option Int :=
  match dropEndWhile isNumberBlank (text.dropWhile isNumberBlank) with
  | '-' :: rest => (natural? rest).map fun n => -(n : Int)
  | '+' :: rest => (natural? rest).map Int.ofNat
  | rest => (natural? rest).map Int.ofNat

end EnumBlocks.Text
