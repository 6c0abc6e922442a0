/-!
Text as a list of characters, the sets of characters that tables give, and the few ways of cutting
text that every reader here is made of.
-/

namespace EnumBlocks

/-- Text is handled one code point at a time, and each is a Unicode scalar value: what has half a
surrogate pair in it is no text. Every text can be encoded. -/
abbrev Text := List Char

-- Found here once, where no other instance on lists or characters is in the way.
instance : LawfulBEq Text := inferInstance

def quotationMark : Char := '\x22'

def apostrophe : Char := '\x27'

/-- Ranges of code points, both ends included. -/
abbrev CharTable := List (Nat × Nat)

def CharTable.contains (table : CharTable) (c : Char) : Bool :=
  table.any fun range => decide (range.1 ≤ c.toNat) && decide (c.toNat ≤ range.2)

namespace Text

/-- What follows the first occurrence of `mark`; nothing when it does not occur. -/
def afterFirst (mark : Char) (text : Text) : Text :=
  (text.dropWhile (· ≠ mark)).drop 1

/-- What precedes the first occurrence of `mark`; everything when it does not occur. -/
def beforeFirst (mark : Char) (text : Text) : Text :=
  text.takeWhile (· ≠ mark)

/-- What precedes the last occurrence of `mark`; everything when it does not occur. -/
def beforeLast (mark : Char) (text : Text) : Text :=
  if mark ∈ text then ((text.reverse.dropWhile (· ≠ mark)).drop 1).reverse else text

def consFirst (c : Char) : List Text → List Text
  | [] => [[c]]
  | piece :: others => (c :: piece) :: others

/-- The pieces between the occurrences of `mark`; there is one more piece than occurrences. -/
def pieces (mark : Char) : Text → List Text
  | [] => [[]]
  | c :: rest =>
      if c = mark then [] :: pieces mark rest else consFirst c (pieces mark rest)

def joinWith (mark : Text) : List Text → Text
  | [] => []
  | [text] => text
  | text :: others => text ++ mark ++ joinWith mark others

def decimal (n : Nat) : Text :=
  Nat.toDigits 10 n

def padLeft (width : Nat) (text : Text) : Text :=
  List.replicate (width - text.length) ' ' ++ text

@[simp]
theorem joinWith_nil (mark : Text) : joinWith mark [] = [] := rfl

@[simp]
theorem joinWith_singleton (mark text : Text) : joinWith mark [text] = text := rfl

theorem joinWith_cons_cons (mark text next : Text) (others : List Text) :
    joinWith mark (text :: next :: others) =
      text ++ mark ++ joinWith mark (next :: others) := rfl

theorem consFirst_ne_nil (c : Char) (texts : List Text) : consFirst c texts ≠ [] := by
  cases texts <;> simp [consFirst]

theorem pieces_ne_nil (mark : Char) (text : Text) : pieces mark text ≠ [] := by
  cases text with
  | nil => simp [pieces]
  | cons c rest =>
      simp only [pieces]
      split
      · simp
      · exact consFirst_ne_nil c _

theorem joinWith_consFirst (c : Char) (mark : Text) (texts : List Text) :
    joinWith mark (consFirst c texts) = c :: joinWith mark texts := by
  match texts with
  | [] => rfl
  | [text] => rfl
  | text :: next :: others => rfl

/-- Cutting a text at a mark loses nothing but the mark. -/
theorem joinWith_pieces (mark : Char) (text : Text) :
    joinWith [mark] (pieces mark text) = text := by
  induction text with
  | nil => rfl
  | cons c rest inductionHypothesis =>
      simp only [pieces]
      split
      · rename_i same
        cases found : pieces mark rest with
        | nil => exact absurd found (pieces_ne_nil mark rest)
        | cons piece others =>
            rw [joinWith_cons_cons, ← found, inductionHypothesis, same]
            rfl
      · rw [joinWith_consFirst, inductionHypothesis]

end Text

end EnumBlocks
