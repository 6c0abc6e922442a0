import EnumBlocks.BodyLine
import EnumBlocks.Declaration
import EnumBlocks.Notice
import EnumBlocks.Outline.Basic

/-!
Reading the outline of a document: one pass over its lines that keeps the depth of nesting and the
blocks that are open, and collects every declaration with its entries.
-/

namespace EnumBlocks

/-- Whether a trimmed line begins with a keyword and goes on as a directive: a blank, no
parenthesis, and a semicolon at the end. -/
def isDirectiveOf (keyword line : Text) : Bool :=
  match keyword.isPrefixOf? line with
  | some rest => rest.head?.any Text.isBlank && '(' ∉ rest && rest.getLast? == some ';'
  | none => false

/-- Whether a trimmed line is a directive, which takes no part in the structure of the document. -/
def isDirective (line : Text) : Bool :=
  isDirectiveOf ['u', 's', 'i', 'n', 'g'] line || isDirectiveOf ['i', 'm', 'p', 'o', 'r', 't'] line

/-- The entries of a list on one line. A piece that is not an entry is dropped and reported. -/
def inlineEntries (body : Text) : List Entry × List Notice :=
  ((listPieces body).filterMap Entry.parse?,
   ((listPieces body).filter fun piece => (Entry.parse? piece).isNone).map .droppedPiece)

/-- The part of a declaring line that may hold entries, between its braces. `closed` says whether
the braces of the line close at least as often as they open. -/
def inlineBody (line : Text) (closed : Bool) : Text :=
  let body := Text.afterFirst '{' (codeOf line)
  if closed then Text.beforeLast '}' body else body

structure Scope where
  /-- Its place among the declarations of the document. -/
  place : Nat
  name : Text
  /-- The depth of nesting at which it is declared. -/
  bodyDepth : Int
  deriving DecidableEq, Repr

/-- What is known in the middle of a document. -/
structure Reading where
  /-- The depth of nesting; negative where more braces closed than opened. -/
  depth : Int := 0
  /-- The declarations so far, in order, each with the entries that belong to it. -/
  declared : List Block := []
  /-- The open blocks, innermost first. -/
  scopes : List Scope := []
  /-- What there was to report. -/
  reported : List Notice := []
  deriving DecidableEq, Repr

namespace Reading

def report (reading : Reading) (notices : List Notice) : Reading :=
  { reading with reported := reading.reported ++ notices }

def addEntries (reading : Reading) (place : Nat) (entries : List Entry) : Reading :=
  { reading with declared := reading.declared.modify place (·.append entries) }

/-- Take in a declaring line, given trimmed. Its block stays open unless the line closes it. -/
def declare (reading : Reading) (number : Nat) (line name : Text) : Reading :=
  let closed := decide (netBraces line ≤ 0)
  let opened := decide (0 < openCount line)
  let (entries, dropped) := if opened then inlineEntries (inlineBody line closed) else ([], [])
  let scope : Scope := ⟨reading.declared.length, name, reading.depth⟩
  let again := if name ∈ reading.declared.map Block.name then [.redeclared name number] else []
  { depth := reading.depth + netBraces line
    declared := reading.declared ++ [⟨name, entries⟩]
    scopes := if opened && closed then reading.scopes else scope :: reading.scopes
    reported := reading.reported ++ again ++ dropped }

/-- Take in a line that declares nothing, after its braces were counted. Only the innermost open
block is concerned. -/
def continueBody (reading : Reading) (number : Nat) (line : Text) : Reading :=
  match reading.scopes with
  | [] => reading
  | scope :: outer =>
      let bodyLine := BodyLine.classify line reading.depth scope.bodyDepth
      let extended := reading.addEntries scope.place bodyLine.added
      match bodyLine with
      | .closing _ => { extended with scopes := outer }
      | .unrecognized => extended.report [.ignoredLine number scope.name (Text.strip line)]
      | _ => extended

def takeLine (reading : Reading) (number : Nat) (line : Text) : Reading :=
  let stripped := Text.strip line
  match Declaration.ofLine? line with
  | some declaration => reading.declare number stripped declaration.name
  | none =>
      { reading with depth := reading.depth + netBraces stripped }.continueBody number line

def step (reading : Reading) (number : Nat) (line : Text) : Reading :=
  if isDirective (Text.strip line) then reading else reading.takeLine number line

/-- Take in lines, the first of which has the given number. -/
def run (reading : Reading) (number : Nat) : List Text → Reading
  | [] => reading
  | line :: rest => (reading.step number line).run (number + 1) rest

@[simp]
theorem run_nil (reading : Reading) (number : Nat) : reading.run number [] = reading := rfl

theorem run_append (reading : Reading) (number : Nat) (first second : List Text) :
    reading.run number (first ++ second) =
      (reading.run number first).run (number + first.length) second := by
  induction first generalizing reading number with
  | nil => rfl
  | cons line rest inductionHypothesis =>
      simp only [List.cons_append, run, inductionHypothesis, List.length_cons]
      rw [Nat.add_assoc, Nat.add_comm 1]

def ofLines (lines : List Text) : Reading :=
  Reading.run {} 1 lines

/-- The blocks that were declared. A name that was declared more than once has the place of its
first declaration and the entries of its last. -/
def outline (reading : Reading) : Outline :=
  Outline.ofBlocks reading.declared

/-- Everything there is to report when the document ends here. -/
def notices (reading : Reading) : List Notice :=
  match reading.scopes with
  | [] => reading.reported
  | scope :: _ => reading.reported ++ [.neverClosed scope.name]

end Reading

def Outline.ofLines (lines : List Text) : Outline :=
  (Reading.ofLines lines).outline

end EnumBlocks
