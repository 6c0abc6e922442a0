import EnumBlocks.Text.Basic

/-!
Lines of a text. A break is a single break character, or a carriage return with the line feed
after it. A line ends with a break or with the text, and nothing follows the last break.
-/

namespace EnumBlocks.Text

/-- The lines of a text for a set of break characters that holds both halves of a double break. -/
def linesWith (isBreak : Char → Bool) : Text → List Text
  | [] => []
  | '\r' :: '\n' :: rest => [] :: linesWith isBreak rest
  | c :: rest =>
      if isBreak c then [] :: linesWith isBreak rest else consFirst c (linesWith isBreak rest)

/-- The breaks between the lines of a file: line feed and carriage return. -/
def isLineBreak (c : Char) : Bool :=
  c == '\n' || c == '\r'

/-- The breaks of running text: those of a file, the vertical tab, the form feed, three information
separators, the next-line control and the Unicode line and paragraph separators. -/
def isTextBreak (c : Char) : Bool :=
  isLineBreak c || c == '\x0b' || c == '\x0c' || c == '\x1c' || c == '\x1d' || c == '\x1e' ||
    c == '\u0085' || c == '\u2028' || c == '\u2029'

def fileLines (text : Text) : List Text :=
  linesWith isLineBreak text

def textLines (text : Text) : List Text :=
  linesWith isTextBreak text

def endsWithBreak (text : Text) : Bool :=
  text.getLast?.any isLineBreak

/-- The break that a file uses, taken from its first line feed: with the carriage return before it,
if there is one. A text with carriage returns alone uses those, any other the line feed. -/
def detectBreak (text : Text) : Text :=
  if '\n' ∈ text then
    if (beforeFirst '\n' text).getLast? = some '\r' then ['\r', '\n'] else ['\n']
  else if '\r' ∈ text then ['\r']
  else ['\n']

end EnumBlocks.Text
