import EnumBlocks.Brace
import EnumBlocks.Entry

/-!
The lines inside a block: which of them hold entries, which end the block, and which are passed
over.
-/

namespace EnumBlocks

inductive BodyLine where
  /-- A line of one or more entries. -/
  | entries (entries : List Entry)
  /-- A blank line, a comment or a lone opening brace. -/
  | skip
  /-- The line that closes the block, with the entries before its brace. -/
  | closing (entries : List Entry)
  | unrecognized
  /-- A line before the block's opening brace. -/
  | beforeBody
  deriving DecidableEq, Repr

def BodyLine.added : BodyLine → List Entry
  | .entries found => found
  | .closing found => found
  | _ => []

def listPieces (text : Text) : List Text :=
  ((Text.pieces ',' text).map Text.strip).filter (· ≠ [])

/-- Whether a comma stands before the end of a list. -/
def hasInnerComma (text : Text) : Bool :=
  decide (',' ∈ Text.dropEndWhile (· == ',') (Text.strip text))

/-- The entries of a line: one entry, or a list on one line of which every piece is an entry. -/
def lineEntries (text : Text) : List Entry :=
  match Entry.parse? text with
  | some entry => [entry]
  | none =>
      if hasInnerComma (codeOf text) then
        ((listPieces (codeOf text)).mapM Entry.parse?).getD []
      else []

/-- Classify a line of a block. `depth` is the depth of nesting after the line, `bodyDepth` the
depth at which the block is declared. -/
def BodyLine.classify (line : Text) (depth bodyDepth : Int) : BodyLine :=
  let stripped := Text.strip line
  let code := codeOf stripped
  if depth ≤ bodyDepth then
    if '}' ∈ code then
      let before := Text.strip (Text.beforeFirst '}' code)
      .closing (if before = [] then [] else lineEntries before)
    else .beforeBody
  else if stripped = [] ∨ ['/', '/'] <+: stripped ∨ stripped = ['{'] then .skip
  else
    match lineEntries stripped with
    | [] => .unrecognized
    | found => .entries found

end EnumBlocks
