import EnumBlocks.Text.Blank
import EnumBlocks.Text.Word

/-!
The entries of an enum, the lines they are written as, and how they are read: a name, then a value
after an equals sign, a comma and a comment, each of which may be absent. The value is the shortest
text without a comma that leaves a readable end.
-/

namespace EnumBlocks

/-- An entry: its name, its value and its comment as they stand in the source. An absent value or
comment is empty. -/
structure Entry where
  name : Text
  value : Text := []
  comment : Text := []
  deriving DecidableEq, Repr, Inhabited

namespace Entry

def valuePart (value : Text) : Text :=
  if Text.isBlankText value then [] else [' ', '=', ' '] ++ Text.strip value

def commentPart (comment : Text) : Text :=
  if Text.isBlankText comment then [] else [' ', '/', '/'] ++ comment

def render (entry : Entry) (indent : Text) : Text :=
  indent ++ entry.name ++ valuePart entry.value ++ [','] ++ commentPart entry.comment

/-- An entry with a blank name is never written. -/
def isWritten (entry : Entry) : Bool :=
  !Text.isBlankText entry.name

end Entry

/-- A comment, or nothing at all, which is the empty comment. A comment is one line. -/
def commentAtEnd? : Text → Option Text
  | [] => some []
  | '/' :: '/' :: comment => if '\n' ∈ comment then none else some comment
  | _ => none

/-- The end of an entry: blanks, an optional comma, blanks and the comment, which is the result. -/
def entryEnd? (text : Text) : Option Text :=
  match Text.dropBlank text with
  | ',' :: rest => commentAtEnd? (Text.dropBlank rest)
  | rest => commentAtEnd? rest

/-- The shortest value that leaves an end of an entry, and the comment of that end. -/
def valueAndComment? : Text → Option (Text × Text)
  | [] => none
  | c :: rest =>
      if c = ',' then none
      else
        match entryEnd? rest with
        | some comment => some ([c], comment)
        | none => (valueAndComment? rest).map fun (value, comment) => (c :: value, comment)

/-- What follows the equals sign. Where no value can be read, a blank counts as an empty one. -/
def afterEquals? (text : Text) : Option (Text × Text) :=
  match valueAndComment? (Text.dropBlank text) with
  | some parts => some parts
  | none =>
      if Text.indentOf text = [] then none
      else (entryEnd? (Text.dropBlank text)).map fun comment => ([], comment)

def afterName? (text : Text) : Option (Text × Text) :=
  match Text.dropBlank text with
  | '=' :: rest => afterEquals? rest
  | rest => (entryEnd? rest).map fun comment => ([], comment)

/-- Read an entry. Blanks around the whole and around the value are not part of it, nor are blanks
at the end of the comment. -/
def Entry.parse? (text : Text) : Option Entry :=
  let stripped := Text.strip text
  let name := stripped.takeWhile Text.isWord
  if name = [] then none
  else
    (afterName? (stripped.dropWhile Text.isWord)).map fun (value, comment) =>
      ⟨name, Text.strip value, Text.stripEnd comment⟩

end EnumBlocks
