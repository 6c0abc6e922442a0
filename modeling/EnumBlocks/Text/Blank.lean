import EnumBlocks.Text.Basic

/-!
Blank characters and the trimming of text. Blank is the Unicode notion of white space together
with the four information separators U+001C to U+001F.
-/

namespace EnumBlocks.Text

def blankTable : CharTable :=
  [(0x9, 0xd), (0x1c, 0x20), (0x85, 0x85), (0xa0, 0xa0), (0x1680, 0x1680), (0x2000, 0x200a),
   (0x2028, 0x2029), (0x202f, 0x202f), (0x205f, 0x205f), (0x3000, 0x3000)]

def isBlank (c : Char) : Bool :=
  blankTable.contains c

/-- The blanks at the start of a text. -/
def indentOf (text : Text) : Text :=
  text.takeWhile isBlank

def dropBlank (text : Text) : Text :=
  text.dropWhile isBlank

/-- The text without the characters at its end that satisfy `p`. -/
def dropEndWhile (p : Char → Bool) (text : Text) : Text :=
  (text.reverse.dropWhile p).reverse

def stripEnd (text : Text) : Text :=
  dropEndWhile isBlank text

def strip (text : Text) : Text :=
  stripEnd (dropBlank text)

def isBlankText (text : Text) : Bool :=
  text.all isBlank

@[simp]
theorem strip_nil : strip [] = [] := rfl

theorem indentOf_append_dropBlank (text : Text) : indentOf text ++ dropBlank text = text :=
  List.takeWhile_append_dropWhile

end EnumBlocks.Text
