import EnumBlocks.Text.Blank
import EnumBlocks.Text.Word

/-!
Declarations of enums. A declaring line has an indent, attributes in square brackets, access
modifiers, the keyword and a name, in this order; what follows the name is free.
-/

namespace EnumBlocks

def enumKeyword : Text := ['e', 'n', 'u', 'm']

/-- The modifiers that may precede the keyword, in any number. -/
def modifiers : List Text :=
  [['p', 'u', 'b', 'l', 'i', 'c'], ['p', 'r', 'i', 'v', 'a', 't', 'e'],
   ['i', 'n', 't', 'e', 'r', 'n', 'a', 'l'], ['p', 'r', 'o', 't', 'e', 'c', 't', 'e', 'd']]

/-- Split a text after its leading attributes, the blanks around them included. `held` is an
attribute that is not closed yet, last character first; one that is never closed is not an
attribute. -/
def splitAttributes : Option Text → Text → Text × Text
  | none, [] => ([], [])
  | some held, [] => ([], held.reverse)
  | none, c :: rest =>
      if Text.isBlank c then
        let (attributes, remainder) := splitAttributes none rest
        (c :: attributes, remainder)
      else if c = '[' then splitAttributes (some ['[']) rest
      else ([], c :: rest)
  | some held, c :: rest =>
      if c = ']' then
        let (attributes, remainder) := splitAttributes none rest
        (held.reverse ++ c :: attributes, remainder)
      else splitAttributes (some (c :: held)) rest

def attributesOf (line : Text) : Text :=
  Text.strip (splitAttributes none line).1

/-- Drop the leading modifiers, each with the blanks after it. `held` is the word being read, last
character first. -/
def dropModifiers (held : Text) : Text → Text
  | [] => held.reverse
  | c :: rest =>
      if Text.isBlank c then
        if held = [] ∨ held.reverse ∈ modifiers then dropModifiers [] rest
        else held.reverse ++ c :: rest
      else dropModifiers (c :: held) rest

def afterKeyword? (line : Text) : Option Text :=
  enumKeyword.isPrefixOf? (dropModifiers [] (splitAttributes none line).2)

structure Declaration where
  indent : Text
  name : Text
  /-- Whether an opening brace stands right after the name. -/
  opensBody : Bool
  deriving DecidableEq, Repr

def Declaration.ofLine? (line : Text) : Option Declaration :=
  (afterKeyword? line).bind fun rest =>
    let name := (Text.dropBlank rest).takeWhile Text.isWord
    if Text.indentOf rest = [] ∨ name = [] then none
    else
      let afterName := Text.dropBlank ((Text.dropBlank rest).dropWhile Text.isWord)
      some ⟨Text.indentOf line, name, afterName.head? == some '{'⟩

/-- Whether `name` stands at the start of a text and ends at a word boundary; `before` is the
character in front of the text. -/
def startsWithName (name : Text) (before : Char) (text : Text) : Bool :=
  match name.isPrefixOf? text with
  | some rest => Text.isBoundary (some (name.getLastD before)) rest.head?
  | none => false

/-- Whether `name` stands in a text after one or more of its leading blanks. -/
def namedAfterBlanks (name : Text) : Text → Bool
  | [] => false
  | c :: rest => Text.isBlank c && (startsWithName name c rest || namedAfterBlanks name rest)

def declares (name line : Text) : Bool :=
  (afterKeyword? line).any (namedAfterBlanks name)

end EnumBlocks
