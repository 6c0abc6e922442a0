import EnumBlocks.Block.Basic
import EnumBlocks.Text.Quoted

/-!
Edits of a block's entries. The names that an edit gives are identifiers. Positions count from zero;
a negative one counts back from the end. Every position has to be an index, a whole number that a
signed machine word of 64 bits holds; one that is not is refused in words of its own.
-/

namespace EnumBlocks

def isIdentifierStart (c : Char) : Bool :=
  c.isAlpha || c == '_'

def isIdentifierPart (c : Char) : Bool :=
  c.isAlphanum || c == '_'

/-- Whether a text from its second character on completes an identifier. One line feed is tolerated
at the very end. -/
def isIdentifierTail : Text → Bool
  | [] => true
  | ['\n'] => true
  | c :: rest => isIdentifierPart c && isIdentifierTail rest

/-- Whether a name is an identifier: an ASCII letter or low line, then letters, digits and low
lines. -/
def isIdentifier : Text → Bool
  | [] => false
  | c :: rest => isIdentifierStart c && isIdentifierTail rest

/-- The least natural number that is not an index: two to the power of 63. -/
def indexBound : Int := 0x8000000000000000

def isIndex (n : Int) : Bool :=
  decide (-indexBound ≤ n) && decide (n < indexBound)

@[simp]
theorem isIndex_eq_true_iff {n : Int} :
    isIndex n = true ↔ -indexBound ≤ n ∧ n < indexBound := by
  simp [isIndex]

inductive EditError where
  | invalidName (name : Text)
  | duplicateName (name : Text)
  /-- No entry can be taken from a block that has none. -/
  | noEntries
  /-- There is no entry to take at the position. -/
  | nothingToTake
  /-- There is no entry at the position. -/
  | noSuchEntry
  /-- The position to take an entry from is not an index. -/
  | takeBeyondIndex
  /-- The position of an entry is not an index. -/
  | entryBeyondIndex
  deriving DecidableEq, Repr

def EditError.message : EditError → String
  | .invalidName name => s!"Invalid entry name: {String.ofList (Text.quote name)}"
  | .duplicateName name => s!"Duplicate entry name: {String.ofList (Text.quote name)}"
  | .noEntries => "pop from empty list"
  | .nothingToTake => "pop index out of range"
  | .noSuchEntry => "list index out of range"
  | .takeBeyondIndex => "Python int too large to convert to C ssize_t"
  | .entryBeyondIndex => "cannot fit 'int' into an index-sized integer"

/-- The place in a list of `size` elements that a position names. -/
def position? (size : Nat) (index : Int) : Option Nat :=
  let place := if index < 0 then index + size else index
  if 0 ≤ place ∧ place < size then some place.toNat else none

/-- The candidates for the name of an added entry: the name itself, then the name with 1, 2, … -/
def candidateName (name : Text) : Nat → Text
  | 0 => name
  | suffix + 1 => name ++ Text.decimal (suffix + 1)

/-- The first candidate that is not taken. There is one among the first `taken.length + 1`. -/
def freshName (taken : List Text) (name : Text) : Text :=
  match (List.range (taken.length + 1)).find? fun suffix => candidateName name suffix ∉ taken with
  | some suffix => candidateName name suffix
  | none => candidateName name (taken.length + 1)

namespace Block

/-- The entry of that name or, where the name is taken, of that name with a number, added at the
end. -/
def add (block : Block) (name value comment : Text) : Except EditError (Entry × Block) :=
  if isIdentifier name then
    let entry := ⟨freshName block.entryNames name, value, comment⟩
    .ok (entry, block.append [entry])
  else .error (.invalidName name)

def takeError (block : Block) (index : Int) : EditError :=
  if isIndex index = false then .takeBeyondIndex
  else if block.entries = [] then .noEntries
  else .nothingToTake

def take (block : Block) (index : Int) : Except EditError (Entry × Block) :=
  match position? block.entries.length index with
  | none => .error (block.takeError index)
  | some place =>
      match block.entries[place]? with
      | none => .error (block.takeError index)
      | some entry => .ok (entry, { block with entries := block.entries.eraseIdx place })

def hasOther (block : Block) (place : Nat) (name : Text) : Bool :=
  decide (name ∈ block.entryNames.eraseIdx place)

def lookupError (index : Int) : EditError :=
  if isIndex index then .noSuchEntry else .entryBeyondIndex

/-- Give the entry at a position another name. Its own name is always accepted. -/
def rename (block : Block) (index : Int) (name : Text) : Except EditError Block :=
  match position? block.entries.length index with
  | none => .error (lookupError index)
  | some place =>
      match block.entries[place]? with
      | none => .error (lookupError index)
      | some entry =>
          if name = entry.name then .ok block
          else if isIdentifier name = false then .error (.invalidName name)
          else if block.hasOther place name then .error (.duplicateName name)
          else .ok { block with entries := block.entries.set place { entry with name := name } }

/-- Where a move by `offset` ends: within the block. -/
def moveTarget (block : Block) (index offset : Int) : Int :=
  max 0 (min (block.entries.length - 1) (index + offset))

/-- Move the entry at a position by an offset, and say where it is then. An entry that is where it
should be is not looked at. -/
def move (block : Block) (index offset : Int) : Except EditError (Int × Block) :=
  let target := block.moveTarget index offset
  if target = index then .ok (target, block)
  else
    (block.take index).map fun (entry, rest) =>
      (target, { rest with entries := rest.entries.insertIdx target.toNat entry })

end Block

def newEntryName : Text := ['N', 'e', 'w', 'V', 'a', 'l', 'u', 'e']

inductive Edit where
  | add (name value comment : Text)
  | remove (index : Int)
  | rename (index : Int) (name : Text)
  | move (index offset : Int)
  deriving DecidableEq, Repr

inductive EditAnswer where
  | done
  /-- The entry that was added or removed. -/
  | entry (entry : Entry)
  /-- Where the moved entry is. -/
  | position (index : Int)
  deriving DecidableEq, Repr

def Block.edit (block : Block) : Edit → Except EditError (EditAnswer × Block)
  | .add name value comment =>
      (block.add name value comment).map fun (entry, edited) => (.entry entry, edited)
  | .remove index => (block.take index).map fun (entry, edited) => (.entry entry, edited)
  | .rename index name => (block.rename index name).map fun edited => (.done, edited)
  | .move index offset =>
      (block.move index offset).map fun (target, edited) => (.position target, edited)

end EnumBlocks
