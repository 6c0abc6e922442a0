import EnumBlocks.Brace
import EnumBlocks.Declaration

/-!
The extent of a block: from the line that declares it to the line where its braces balance.
-/

namespace EnumBlocks

/-- The lines of a block, counted from zero. -/
structure Span where
  /-- The line that declares it. -/
  head : Nat
  /-- The first line from there on that opens a brace. -/
  opening : Nat
  /-- The line where the braces balance. -/
  closing : Nat
  deriving DecidableEq, Repr

def Span.size (span : Span) : Nat :=
  span.closing + 1 - span.head

inductive SpanError where
  /-- No line declares it. -/
  | undeclared (name : Text)
  /-- No line from its declaration on opens a brace. -/
  | unopened (name : Text) (head : Nat)
  /-- Its braces do not balance before the end. -/
  | unclosed (name : Text)
  deriving DecidableEq, Repr

/-- The message for a block that cannot be located; lines are counted from one. -/
def SpanError.message : SpanError → String
  | .undeclared name => s!"Enum '{String.ofList name}' not found"
  | .unopened name head =>
      s!"Enum '{String.ofList name}' is malformed: no opening brace after line {head + 1}"
  | .unclosed name => s!"Enum '{String.ofList name}' is malformed: no matching closing brace"

def headLine? (name : Text) (lines : List Text) : Option Nat :=
  lines.findIdx? (declares name)

def openingLine? (counting : Counting) (start : Nat) (lines : List Text) : Option Nat :=
  ((lines.drop start).findIdx? counting.opens).map (start + ·)

/-- How many lines it takes until the depth, `depth` before the first of them, is zero or less. -/
def linesToClose? (counting : Counting) (depth : Int) : List Text → Option Nat
  | [] => none
  | line :: rest =>
      if depth + counting.delta line ≤ 0 then some 0
      else (linesToClose? counting (depth + counting.delta line) rest).map (· + 1)

/-- The first line from `start` on after which the braces opened since then are closed. -/
def closingLine? (counting : Counting) (start : Nat) (lines : List Text) : Option Nat :=
  (linesToClose? counting 0 (lines.drop start)).map (start + ·)

/-- The extent of the first block declared under a name. -/
def spanOf (name : Text) (lines : List Text) (counting : Counting) : Except SpanError Span :=
  match headLine? name lines with
  | none => .error (.undeclared name)
  | some head =>
      match openingLine? counting head lines with
      | none => .error (.unopened name head)
      | some opening =>
          match closingLine? counting opening lines with
          | none => .error (.unclosed name)
          | some closing => .ok ⟨head, opening, closing⟩

end EnumBlocks
