import EnumBlocks.Comment

/-!
The braces of a line and how far they change the depth of nesting, by either way of counting them.
-/

namespace EnumBlocks

/-- How the braces of a line are counted when the extent of a block is sought. -/
inductive Counting where
  /-- A line opens at most one brace and closes at most one, comments included. -/
  | perLine
  /-- Every brace outside the line's comment counts. -/
  | perCharacter
  deriving DecidableEq, Repr, Inhabited

def openCount (line : Text) : Nat :=
  (codeOf line).count '{'

def closeCount (line : Text) : Nat :=
  (codeOf line).count '}'

/-- How far the code of a line changes the depth of nesting. -/
def netBraces (line : Text) : Int :=
  openCount line - closeCount line

namespace Counting

def opens : Counting → Text → Bool
  | .perLine, line => decide ('{' ∈ line)
  | .perCharacter, line => decide (0 < openCount line)

def delta : Counting → Text → Int
  | .perLine, line => (if '{' ∈ line then 1 else 0) - (if '}' ∈ line then 1 else 0)
  | .perCharacter, line => netBraces line

end Counting

end EnumBlocks
