import EnumBlocks.Text.LineBreak
import EnumBlocks.Text.Utf8

/-!
A text file as lines together with the format that it is written back in.
-/

namespace EnumBlocks

structure TextFile where
  lines : List Text
  /-- What separates lines. -/
  newline : Text
  /-- Whether the file begins with a byte order mark. -/
  marked : Bool
  /-- Whether the last line is ended like the others. -/
  trailingNewline : Bool
  deriving DecidableEq, Repr

namespace TextFile

/-- The format and the lines of a text. An empty text counts as one whose last line is ended. -/
def ofText (text : Text) (marked : Bool) : TextFile :=
  { lines := Text.fileLines text
    newline := Text.detectBreak text
    marked := marked
    trailingNewline := Text.endsWithBreak text || text.isEmpty }

/-- Read the bytes of a file. Places in faults count from the end of the byte order mark. -/
def ofBytes (bytes : Bytes) : Except Utf8.Fault TextFile :=
  match Utf8.mark.isPrefixOf? bytes with
  | some rest => (Utf8.decode rest).map (ofText · true)
  | none => (Utf8.decode bytes).map (ofText · false)

def toText (source : TextFile) : Text :=
  Text.joinWith source.newline source.lines ++
    if source.trailingNewline && !source.lines.isEmpty then source.newline else []

/-- The bytes of a file. There always are some, as a text has no half of a surrogate pair. -/
def toBytes (source : TextFile) : Bytes :=
  (if source.marked then Utf8.mark else []) ++ Utf8.encode source.toText

end TextFile

end EnumBlocks
