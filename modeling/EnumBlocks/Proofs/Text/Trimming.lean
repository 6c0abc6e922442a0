import EnumBlocks.Text.Blank
import EnumBlocks.Text.Word
import Mathlib.Data.List.DropRight
import Mathlib.Data.List.Infix

/-!
Blanks and word characters never meet, and trimming takes away blanks only. A text is what is left
of it between its indent and its trailing blanks.
-/

namespace EnumBlocks

theorem CharTable.contains_iff {table : CharTable} {c : Char} :
    table.contains c = true ↔ ∃ range ∈ table, range.1 ≤ c.toNat ∧ c.toNat ≤ range.2 := by
  simp [CharTable.contains]

namespace Text

/-- No range of blanks meets a range of letters or numerals. -/
theorem blankTable_apart :
    ∀ blanks ∈ blankTable, ∀ letters ∈ wordTable,
      blanks.2 < letters.1 ∨ letters.2 < blanks.1 := by
  decide +kernel

theorem blankTable_apart_ascii :
    ∀ blanks ∈ blankTable, blanks.2 < 48 ∨ 122 < blanks.1 := by
  decide

theorem toNat_of_isAlphanum {c : Char} (alphanumeric : c.isAlphanum = true) :
    48 ≤ c.toNat ∧ c.toNat ≤ 122 := by
  have value : c.toNat = c.val.toNat := rfl
  unfold Char.isAlphanum Char.isAlpha Char.isUpper Char.isLower Char.isDigit at alphanumeric
  simp only [Bool.or_eq_true, Bool.and_eq_true, decide_eq_true_eq, UInt32.le_iff_toNat_le,
    ge_iff_le] at alphanumeric
  simp at alphanumeric
  omega

theorem not_isWord_of_isBlank {c : Char} (blank : isBlank c = true) : isWord c = false := by
  obtain ⟨blanks, blanksMembership, blankBounds⟩ := CharTable.contains_iff.mp blank
  have ascii := blankTable_apart_ascii blanks blanksMembership
  rw [Bool.eq_false_iff]
  intro word
  simp only [isWord, Bool.or_eq_true, Bool.and_eq_true] at word
  rcases word with (alphanumeric | lowLine) | ⟨-, beyond⟩
  · have bounds := toNat_of_isAlphanum alphanumeric
    omega
  · have same : c = '_' := by simpa using lowLine
    subst same
    have value : ('_' : Char).toNat = 95 := rfl
    omega
  · obtain ⟨letters, lettersMembership, letterBounds⟩ := CharTable.contains_iff.mp beyond
    have apart := blankTable_apart blanks blanksMembership letters lettersMembership
    omega

theorem not_isBlank_of_isWord {c : Char} (word : isWord c = true) : isBlank c = false := by
  rw [Bool.eq_false_iff]
  intro blank
  rw [not_isWord_of_isBlank blank] at word
  contradiction

theorem not_isBlank_of_all {text : Text} (unbroken : text.all (!isBlank ·) = true) :
    ∀ c ∈ text, isBlank c = false := by
  intro c membership
  simpa using List.all_eq_true.mp unbroken c membership

theorem isBlankText_iff {text : Text} :
    isBlankText text = true ↔ ∀ c ∈ text, isBlank c = true :=
  List.all_eq_true

theorem isBlankText_cons {c : Char} {text : Text} :
    isBlankText (c :: text) = true ↔ isBlank c = true ∧ isBlankText text = true := by
  simp [isBlankText]

theorem not_mem_of_isBlankText {text : Text} (blank : isBlankText text = true) {mark : Char}
    (plain : isBlank mark = false) : mark ∉ text := by
  intro membership
  rw [isBlankText_iff.mp blank mark membership] at plain
  contradiction

theorem isBlankText_append {first second : Text} :
    isBlankText (first ++ second) = true ↔
      isBlankText first = true ∧ isBlankText second = true := by
  simp [isBlankText]

theorem dropBlank_eq_nil {text : Text} (blank : isBlankText text = true) :
    dropBlank text = [] :=
  List.dropWhile_eq_nil_iff.mpr (isBlankText_iff.mp blank)

theorem dropBlank_append {blanks : Text} (blank : isBlankText blanks = true) (text : Text) :
    dropBlank (blanks ++ text) = dropBlank text :=
  List.dropWhile_append_of_pos (isBlankText_iff.mp blank)

theorem dropBlank_append_of_cons {text rest : Text} {c : Char} (shape : dropBlank text = c :: rest)
    (tail : Text) : dropBlank (text ++ tail) = c :: (rest ++ tail) := by
  rw [dropBlank] at shape
  rw [dropBlank, List.dropWhile_append, shape]
  rfl

theorem indentOf_append {blanks : Text} (blank : isBlankText blanks = true) (text : Text) :
    indentOf (blanks ++ text) = blanks ++ indentOf text :=
  List.takeWhile_append_of_pos (isBlankText_iff.mp blank)

theorem dropBlank_cons {c : Char} (mark : isBlank c = false) (text : Text) :
    dropBlank (c :: text) = c :: text :=
  List.dropWhile_cons_of_neg (by simp [mark])

theorem indentOf_cons {c : Char} (mark : isBlank c = false) (text : Text) :
    indentOf (c :: text) = [] :=
  List.takeWhile_cons_of_neg (by simp [mark])

theorem isBlankText_indentOf (text : Text) : isBlankText (indentOf text) = true :=
  isBlankText_iff.mpr fun _ => List.mem_takeWhile_imp

theorem isBlank_of_mem_head? {text : Text} (indented : indentOf text ≠ []) {c : Char}
    (first : c ∈ text.head?) : isBlank c = true := by
  cases text with
  | nil => contradiction
  | cons other rest =>
      cases first
      by_contra mark
      exact indented (indentOf_cons (by simpa using mark) rest)

theorem exists_dropBlank {text : Text} (written : isBlankText text = false) :
    ∃ c rest, dropBlank text = c :: rest ∧ isBlank c = false := by
  cases shape : dropBlank text with
  | nil =>
      have blank : isBlankText text = true :=
        isBlankText_iff.mpr (List.dropWhile_eq_nil_iff.mp shape)
      rw [blank] at written
      contradiction
  | cons c rest =>
      refine ⟨c, rest, rfl, ?_⟩
      have nonempty : text.dropWhile isBlank ≠ [] := by
        intro empty
        rw [dropBlank, empty] at shape
        contradiction
      have head := List.head_dropWhile_not isBlank nonempty
      simp only [dropBlank] at shape
      simpa [shape] using head

theorem stripEnd_eq_rdropWhile (text : Text) : stripEnd text = text.rdropWhile isBlank := rfl

theorem stripEnd_append_blank {blanks : Text} (blank : isBlankText blanks = true) (text : Text) :
    stripEnd (text ++ blanks) = stripEnd text := by
  have reversed : ∀ c ∈ blanks.reverse, isBlank c = true := by
    intro c membership
    exact isBlankText_iff.mp blank c (List.mem_reverse.mp membership)
  simp only [stripEnd, dropEndWhile, List.reverse_append]
  rw [List.dropWhile_append_of_pos reversed]

theorem dropEndWhile_append_cons {test : Char → Bool} {c : Char} (stays : test c = false)
    (text rest : Text) :
    dropEndWhile test (text ++ c :: rest) = text ++ c :: dropEndWhile test rest := by
  have same : ∀ whole, dropEndWhile test whole = whole.rdropWhile test := fun _ => rfl
  induction rest using List.reverseRecOn with
  | nil => simp [same, stays]
  | append_singleton front last inductionHypothesis =>
      rw [← List.cons_append, ← List.append_assoc]
      simp only [same, List.rdropWhile_concat] at inductionHypothesis ⊢
      split
      · exact inductionHypothesis
      · simp

theorem stripEnd_append_cons {c : Char} (mark : isBlank c = false) (text rest : Text) :
    stripEnd (text ++ c :: rest) = text ++ c :: stripEnd rest :=
  dropEndWhile_append_cons mark text rest

theorem stripEnd_eq_nil_iff {text : Text} : stripEnd text = [] ↔ isBlankText text = true := by
  rw [stripEnd_eq_rdropWhile, List.rdropWhile_eq_nil_iff, isBlankText_iff]

theorem stripEnd_append {rest : Text} (written : isBlankText rest = false) (text : Text) :
    stripEnd (text ++ rest) = text ++ stripEnd rest := by
  obtain ⟨c, tail, shape, mark⟩ := exists_dropBlank written
  rw [← indentOf_append_dropBlank rest, shape, ← List.append_assoc,
    stripEnd_append_cons mark, stripEnd_append_cons mark, List.append_assoc]

@[simp]
theorem stripEnd_stripEnd (text : Text) : stripEnd (stripEnd text) = stripEnd text :=
  List.rdropWhile_idempotent isBlank text

theorem exists_stripEnd_append (text : Text) :
    ∃ blanks, isBlankText blanks = true ∧ text = stripEnd text ++ blanks := by
  refine ⟨text.rtakeWhile isBlank, ?_, ?_⟩
  · exact isBlankText_iff.mpr fun _ => List.mem_rtakeWhile_imp
  · exact (List.rdropWhile_append_rtakeWhile ..).symm

theorem mem_head?_of_stripEnd {c : Char} {text : Text} (first : c ∈ (stripEnd text).head?) :
    c ∈ text.head? := by
  obtain ⟨blanks, -, whole⟩ := exists_stripEnd_append text
  rw [whole, List.head?_append, Option.mem_def.mp first]
  rfl

theorem exists_strip_append (text : Text) :
    ∃ blanks, isBlankText blanks = true ∧ text = indentOf text ++ strip text ++ blanks := by
  obtain ⟨blanks, blank, shape⟩ := exists_stripEnd_append (dropBlank text)
  refine ⟨blanks, blank, ?_⟩
  rw [strip, List.append_assoc, ← shape, indentOf_append_dropBlank]

theorem strip_append_blank {indent blanks : Text} (indentBlank : isBlankText indent = true)
    (blank : isBlankText blanks = true) (text : Text) :
    strip (indent ++ text ++ blanks) = strip text := by
  cases written : isBlankText text with
  | true =>
      have whole : isBlankText (indent ++ text ++ blanks) = true :=
        isBlankText_append.mpr ⟨isBlankText_append.mpr ⟨indentBlank, written⟩, blank⟩
      have empty : ∀ {some : Text}, isBlankText some = true → strip some = [] := by
        intro some someBlank
        rw [strip, dropBlank, List.dropWhile_eq_nil_iff.mpr (isBlankText_iff.mp someBlank)]
        rfl
      rw [empty whole, empty written]
  | false =>
      obtain ⟨c, rest, shape, mark⟩ := exists_dropBlank written
      have split : indent ++ text ++ blanks =
          (indent ++ indentOf text) ++ c :: (rest ++ blanks) := by
        conv_lhs => rw [← indentOf_append_dropBlank text, shape]
        simp
      have leading : isBlankText (indent ++ indentOf text) = true :=
        isBlankText_append.mpr ⟨indentBlank, isBlankText_indentOf text⟩
      rw [strip, split, dropBlank_append leading, dropBlank_cons mark, strip, shape,
        ← List.cons_append, stripEnd_append_blank blank]

theorem strip_cons {c : Char} (mark : isBlank c = false) (rest : Text) :
    strip (c :: rest) = c :: stripEnd rest := by
  rw [strip, dropBlank_cons mark]
  exact stripEnd_append_cons mark [] rest

theorem strip_indent_append {indent : Text} (blank : isBlankText indent = true) (text : Text) :
    strip (indent ++ text) = strip text := by
  have none : isBlankText [] = true := rfl
  have around := strip_append_blank blank none text
  rw [List.append_nil] at around
  exact around

theorem strip_of_isBlankText {text : Text} (blank : isBlankText text = true) :
    strip text = [] := by
  have trimmed := strip_indent_append blank []
  rw [List.append_nil] at trimmed
  exact trimmed

theorem strip_dropBlank (text : Text) : strip (dropBlank text) = strip text :=
  congrArg stripEnd (List.dropWhile_idempotent isBlank text)

@[simp]
theorem strip_strip (text : Text) : strip (strip text) = strip text := by
  obtain ⟨blanks, blank, shape⟩ := exists_strip_append text
  conv_rhs => rw [shape, strip_append_blank (isBlankText_indentOf text) blank]

theorem isBlankText_strip (text : Text) : isBlankText (strip text) = isBlankText text := by
  obtain ⟨blanks, blank, shape⟩ := exists_strip_append text
  conv_rhs => rw [shape]
  have own := isBlankText_indentOf text
  simp only [isBlankText, List.all_append] at own blank ⊢
  simp [own, blank]

theorem mem_of_mem_strip {c : Char} {text : Text} (membership : c ∈ strip text) : c ∈ text := by
  obtain ⟨blanks, -, shape⟩ := exists_strip_append text
  rw [shape]
  simp [membership]

theorem strip_infix (text : Text) : strip text <:+: text := by
  obtain ⟨blanks, -, shape⟩ := exists_strip_append text
  exact ⟨indentOf text, blanks, shape.symm⟩

theorem isBlankText_eq_false_of_isWord {text : Text} {c : Char} (membership : c ∈ text)
    (word : isWord c = true) : isBlankText text = false := by
  rw [Bool.eq_false_iff]
  intro blank
  have mark := isBlankText_iff.mp blank c membership
  rw [not_isBlank_of_isWord word] at mark
  contradiction

theorem dropWhile_append_cons {test : Char → Bool} {c : Char} (stop : test c = false)
    (front rest : Text) :
    (front ++ c :: rest).dropWhile test = front.dropWhile test ++ c :: rest := by
  have kept : (c :: rest).dropWhile test = c :: rest := List.dropWhile_cons_of_neg (by simp [stop])
  rw [List.dropWhile_append, kept]
  split
  · rename_i spent
    rw [List.isEmpty_iff.mp spent, List.nil_append]
  · rfl

theorem dropBlank_append_cons {c : Char} (mark : isBlank c = false) (front rest : Text) :
    dropBlank (front ++ c :: rest) = dropBlank front ++ c :: rest :=
  dropWhile_append_cons mark front rest

/-- Trimming stops at a mark on both sides of it. -/
theorem strip_append_cons {c : Char} (mark : isBlank c = false) (front rest : Text) :
    strip (front ++ c :: rest) = dropBlank front ++ c :: stripEnd rest := by
  rw [strip, dropBlank_append_cons mark, stripEnd_append_cons mark]

theorem stripEnd_append_word {word : Text}
    (solid : ∃ front last, word = front ++ [last] ∧ isBlank last = false)
    (before rest : Text) :
    stripEnd (before ++ (word ++ rest)) = before ++ (word ++ stripEnd rest) := by
  obtain ⟨front, last, rfl, mark⟩ := solid
  have trimmed := stripEnd_append_cons mark (before ++ front) rest
  simpa using trimmed

theorem strip_ne_nil {text : Text} (written : isBlankText text = false) :
    strip text ≠ [] := by
  intro empty
  rw [← isBlankText_strip, empty] at written
  contradiction

end Text

end EnumBlocks
