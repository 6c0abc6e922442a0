import EnumBlocks.Brace
import EnumBlocks.Entry

/-!
A block: an enum with its entries in order, and the lines that it is written as under the settings of
the editor: the declaration, a line for each brace and one for each entry.
-/

namespace EnumBlocks

/-- An enum and its entries, in the order in which they are written. -/
structure Block where
  name : Text
  entries : List Entry := []
  deriving DecidableEq, Repr, Inhabited

/-- The settings under which blocks are written and sought. -/
structure Settings where
  /-- The indentation of an entry against its block. -/
  indentUnit : Text := List.replicate 4 ' '
  /-- The modifier in front of every declaration that is written; none when empty. -/
  accessModifier : Text := ['p', 'u', 'b', 'l', 'i', 'c']
  counting : Counting := .perCharacter
  /-- Whether saving also writes the blocks that were not edited. -/
  savesUnchanged : Bool := true
  deriving DecidableEq, Repr, Inhabited

/-- The declaration, after `indent`, with its attributes and the configured modifier. -/
def headerLine (name indent attributes : Text) (settings : Settings) : Text :=
  indent ++ (if attributes = [] then [] else attributes ++ [' ']) ++
    (if settings.accessModifier = [] then [] else settings.accessModifier ++ [' ']) ++
    ['e', 'n', 'u', 'm', ' '] ++ name

namespace Block

def entryNames (block : Block) : List Text :=
  block.entries.map Entry.name

def append (block : Block) (entries : List Entry) : Block :=
  { block with entries := block.entries ++ entries }

/-- The lines of a block. Entries with a blank name are left out. -/
def render (block : Block) (indent attributes : Text) (settings : Settings) : List Text :=
  [headerLine block.name indent attributes settings, indent ++ ['{']] ++
    (block.entries.filter Entry.isWritten).map (Entry.render · (indent ++ settings.indentUnit)) ++
    [indent ++ ['}']]

end Block

end EnumBlocks
