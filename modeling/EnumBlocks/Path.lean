import EnumBlocks.Text.Quoted

/-!
Paths of files, reduced: empty components and those that name the directory itself are left out,
while steps to the parent directory stay as they are.
-/

namespace EnumBlocks

inductive Anchor where
  | relative
  | root
  /-- At the root that two slashes name. -/
  | doubleRoot
  deriving DecidableEq, Repr

/-- A reduced path. -/
structure Path where
  anchor : Anchor := .relative
  parts : List Text
  deriving DecidableEq, Repr

namespace Path

/-- Where a written path begins. Three slashes and more are as good as one. -/
def anchorOf : Text → Anchor
  | '/' :: '/' :: '/' :: _ => .root
  | '/' :: '/' :: _ => .doubleRoot
  | '/' :: _ => .root
  | _ => .relative

def ofText (text : Text) : Path :=
  ⟨anchorOf text, (Text.pieces '/' text).filter fun part => part ≠ [] && part ≠ ['.']⟩

def toText (path : Path) : Text :=
  let body := Text.joinWith ['/'] path.parts
  match path.anchor with
  | .relative => if path.parts = [] then ['.'] else body
  | .root => '/' :: body
  | .doubleRoot => '/' :: '/' :: body

def parentName : Text := ['.', '.']

/-- Take one component after those before it, given last first: a step to the parent cancels a name.
At the root such a step leads nowhere. -/
def collapseStep (absolute : Bool) (before : List Text) (part : Text) : List Text :=
  if part = parentName then
    match before with
    | [] => if absolute then [] else [part]
    | last :: earlier => if last = parentName then part :: before else earlier
  else part :: before

/-- The path with its steps to parent directories cancelled, without a look at the directories. -/
def collapse (path : Path) : Path :=
  { path with
    parts := (path.parts.foldl (collapseStep (decide (path.anchor ≠ .relative))) []).reverse }

def nullCharacter : Char := '\x00'

/-- Whether a path has a null character in it, so that it can lead nowhere. -/
def hasNull (path : Path) : Bool :=
  decide (nullCharacter ∈ path.toText)

end Path

end EnumBlocks
