import EnumBlocks.Block.Basic
import EnumBlocks.Span
import EnumBlocks.Notice

/-!
Changing the lines of one block of a document: replacing the block, adding it at the end, and
removing it. All other lines stay as they are, but for a blank line before a block that is removed.
-/

namespace EnumBlocks

/-- A document after the lines of one of its blocks were changed. -/
structure Splice where
  lines : List Text
  /-- The extent of the block: of the old one where a block was replaced or removed, of the new one
  where it was added. -/
  span : Span
  deriving DecidableEq, Repr

namespace Splice

/-- Replace the block that has the name of a given one. Indentation and attributes are those of the
line that declared it. -/
def replace (block : Block) (lines : List Text) (settings : Settings) : Except SpanError Splice :=
  (spanOf block.name lines settings.counting).map fun span =>
    let declaration := lines.getD span.head []
    let rendered :=
      block.render (Text.indentOf declaration) (attributesOf declaration) settings
    ⟨lines.take span.head ++ rendered ++ lines.drop (span.closing + 1), span⟩

def dropBlankEnd (lines : List Text) : List Text :=
  match lines.getLast? with
  | some line => if Text.isBlankText line then lines.dropLast else lines
  | none => lines

/-- Remove the block of a name, and the line before it if that is blank. -/
def remove (name : Text) (lines : List Text) (settings : Settings) : Except SpanError Splice :=
  (spanOf name lines settings.counting).map fun span =>
    ⟨dropBlankEnd (lines.take span.head) ++ lines.drop (span.closing + 1), span⟩

/-- What a line that opens a namespace asks of the blocks in it: its indent, and whether it stands
for the whole file, ended by a semicolon. -/
def namespace? (line : Text) : Option (Text × Bool) :=
  (['n', 'a', 'm', 'e', 's', 'p', 'a', 'c', 'e'].isPrefixOf? (Text.dropBlank line)).bind fun rest =>
    let isNamePart := fun c => Text.isWord c || c == '.'
    let name := (Text.dropBlank rest).takeWhile isNamePart
    if Text.indentOf rest = [] ∨ name = [] then none
    else
      let afterName := Text.dropBlank ((Text.dropBlank rest).dropWhile isNamePart)
      some (Text.indentOf line, afterName.head? == some ';')

/-- The indentation of an added block, where `indent` is the one found so far and `depth` the depth
of nesting. Every namespace at depth zero sets it anew: a namespace for the whole file to its own
indent, any other to one unit more. -/
def appendIndentFrom (unit indent : Text) (depth : Int) : List Text → Text
  | [] => indent
  | line :: rest =>
      let next :=
        if depth = 0 then
          match namespace? line with
          | some (own, true) => own
          | some (own, false) => own ++ unit
          | none => indent
        else indent
      appendIndentFrom unit next (depth + netBraces line) rest

def appendIndent (lines : List Text) (settings : Settings) : Text :=
  appendIndentFrom settings.indentUnit [] 0 lines

/-- Add a block at the end, after an empty line, unless a block of its name can be located. -/
def append (block : Block) (lines : List Text) (settings : Settings) :
    Except AlreadyThere Splice :=
  match spanOf block.name lines settings.counting with
  | .ok span => .error ⟨block.name, span⟩
  | .error _ =>
      let rendered := block.render (appendIndent lines settings) [] settings
      let start := lines.length + 1
      .ok ⟨lines ++ [[]] ++ rendered, ⟨start, start + 1, lines.length + rendered.length⟩⟩

end Splice

end EnumBlocks
