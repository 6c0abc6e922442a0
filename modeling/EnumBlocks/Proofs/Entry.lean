import EnumBlocks.BodyLine
import EnumBlocks.Proofs.Printer

/-!
Writing an entry and reading it back. The line of an entry is read as the entry it was written for,
with its value and its comment trimmed, provided that the value could not be taken for the end of
the entry. Such a line is not a directive and has no braces in its code.
-/

namespace EnumBlocks

def commentMark : Text := ['/', '/']

namespace Entry

/-- The entry as it is read back. -/
def trimmed (entry : Entry) : Entry :=
  ⟨entry.name, Text.strip entry.value, Text.stripEnd entry.comment⟩

def lineEnd (comment : Text) : Text :=
  ',' :: Text.stripEnd (commentPart comment)

end Entry

theorem commentAtEnd?_eq_none {c : Char} {rest : Text}
    (other : ¬ (c = '/' ∧ rest.head? = some '/')) : commentAtEnd? (c :: rest) = none := by
  unfold commentAtEnd?
  split
  · contradiction
  · rename_i shape
    cases shape
    exact absurd ⟨rfl, rfl⟩ other
  · rfl

theorem entryEnd?_cons_of_blank {c : Char} (blank : Text.isBlank c = true) (rest : Text) :
    entryEnd? (c :: rest) = entryEnd? rest := by
  have dropped : Text.dropBlank (c :: rest) = Text.dropBlank rest :=
    List.dropWhile_cons_of_pos blank
  rw [entryEnd?, dropped, entryEnd?]

theorem entryEnd?_eq_none {c : Char} {rest : Text} (mark : Text.isBlank c = false)
    (noComma : c ≠ ',') (other : ¬ (c = '/' ∧ rest.head? = some '/')) :
    entryEnd? (c :: rest) = none := by
  rw [entryEnd?, Text.dropBlank_cons mark]
  split
  · rename_i shape
    cases shape
    exact absurd rfl noComma
  · exact commentAtEnd?_eq_none other

/-- No entry ends before its value does. -/
theorem entryEnd?_value {front : Text} {last : Char} (mark : Text.isBlank last = false)
    (noComma : ',' ∉ front ++ [last]) (noComment : ¬ commentMark <:+: front ++ [last])
    {rest : Text} (apart : rest.head? ≠ some '/') : entryEnd? (front ++ last :: rest) = none := by
  induction front with
  | nil =>
      exact entryEnd?_eq_none mark (by simpa [eq_comm] using noComma) fun slashes => apart slashes.2
  | cons c tail inductionHypothesis =>
      have tailComma : ',' ∉ tail ++ [last] := fun membership =>
        noComma (List.mem_cons_of_mem c membership)
      have tailComment : ¬ commentMark <:+: tail ++ [last] := fun within =>
        noComment (within.trans (List.suffix_cons c _).isInfix)
      rw [List.cons_append]
      cases blank : Text.isBlank c with
      | true =>
          rw [entryEnd?_cons_of_blank blank]
          exact inductionHypothesis tailComma tailComment
      | false =>
          apply entryEnd?_eq_none blank
          · rintro rfl
            exact noComma (by simp)
          · rintro ⟨rfl, second⟩
            apply noComment
            cases tail with
            | nil =>
                simp only [List.nil_append, List.head?_cons, Option.some.injEq] at second
                subst second
                exact List.infix_refl _
            | cons d others =>
                simp only [List.cons_append, List.head?_cons, Option.some.injEq] at second
                subst second
                exact ⟨[], others ++ [last], rfl⟩

/-- A value is read to its end. Only behind its first character could a comment begin, and it is the
first character alone that is taken without a look at what follows. -/
theorem valueAndComment?_append {front : Text} {last : Char} (mark : Text.isBlank last = false)
    (noComma : ',' ∉ front ++ [last]) (noComment : ¬ commentMark <:+: (front ++ [last]).tail)
    {rest comment : Text} (apart : rest.head? ≠ some '/') (ended : entryEnd? rest = some comment) :
    valueAndComment? (front ++ last :: rest) = some (front ++ [last], comment) := by
  induction front with
  | nil =>
      have single : last ≠ ',' := by simpa [eq_comm] using noComma
      rw [List.nil_append, valueAndComment?, if_neg single, ended]
      rfl
  | cons c tail inductionHypothesis =>
      rw [List.cons_append, List.tail_cons] at noComment
      have tailComma : ',' ∉ tail ++ [last] := fun membership =>
        noComma (List.mem_cons_of_mem c membership)
      have tailComment : ¬ commentMark <:+: (tail ++ [last]).tail := fun within =>
        noComment (within.trans (List.tail_suffix _).isInfix)
      have first : c ≠ ',' := by
        rintro rfl
        exact noComma (by simp)
      rw [List.cons_append, valueAndComment?, if_neg first,
        entryEnd?_value mark tailComma noComment apart, inductionHypothesis tailComma tailComment]
      rfl

theorem stripEnd_commentPart (comment : Text) :
    Text.stripEnd (Entry.commentPart comment) =
      if Text.isBlankText comment then [] else [' ', '/', '/'] ++ Text.stripEnd comment := by
  unfold Entry.commentPart
  split
  · rfl
  · rename_i written
    exact Text.stripEnd_append (by simpa using written) _

theorem entryEnd?_lineEnd {comment : Text} (oneLine : '\n' ∉ comment) :
    entryEnd? (Entry.lineEnd comment) = some (Text.stripEnd comment) := by
  rw [entryEnd?, Entry.lineEnd, Text.dropBlank_cons (by decide), stripEnd_commentPart]
  split
  · rename_i shape
    cases shape
    split
    · rename_i blank
      rw [Text.stripEnd_eq_nil_iff.mpr blank]
      rfl
    · have stripped : '\n' ∉ Text.stripEnd comment := by
        obtain ⟨blanks, -, whole⟩ := Text.exists_stripEnd_append comment
        intro membership
        exact oneLine (by rw [whole]; exact List.mem_append_left _ membership)
      have dropped : Text.dropBlank ([' ', '/', '/'] ++ Text.stripEnd comment) =
          '/' :: '/' :: Text.stripEnd comment := by
        rw [List.cons_append, Text.dropBlank, List.dropWhile_cons_of_pos (by decide)]
        exact Text.dropBlank_cons (by decide) _
      rw [dropped, commentAtEnd?, if_neg stripped]
  · rename_i other
    exact absurd rfl (other _)

section Line

variable {entry : Entry} (named : IsName entry.name) {indent : Text}
  (blank : Text.isBlankText indent = true)

include named blank in
theorem strip_render :
    Text.strip (entry.render indent) =
      entry.name ++ (Entry.valuePart entry.value ++ Entry.lineEnd entry.comment) := by
  rcases named.exists_cons with ⟨first, others, shape, word⟩
  have line : entry.render indent =
      indent ++ (entry.name ++ Entry.valuePart entry.value ++
        ',' :: Entry.commentPart entry.comment) ++ [] := by
    simp [Entry.render]
  rw [line, Text.strip_append_blank blank (by rfl), Text.strip]
  conv_lhs => rw [shape, List.cons_append, List.cons_append,
    Text.dropBlank_cons (Text.not_isBlank_of_isWord word), ← List.cons_append,
    ← List.cons_append, ← shape, Text.stripEnd_append_cons (by decide)]
  rw [List.append_assoc]
  rfl

theorem not_isWord_head_of_line (value comment : Text) :
    ∀ c ∈ (Entry.valuePart value ++ Entry.lineEnd comment).head?, Text.isWord c = false := by
  rcases valuePart_cases value with shape | ⟨tail, shape⟩ <;> rw [shape]
  · simp only [Entry.lineEnd, List.nil_append, List.head?_cons, Option.mem_some_iff, forall_eq']
    decide
  · simp only [List.cons_append, List.head?_cons, Option.mem_some_iff, forall_eq']
    decide

theorem takeWhile_name_append {name rest : Text} (named : IsName name)
    (ended : ∀ c ∈ rest.head?, Text.isWord c = false) :
    (name ++ rest).takeWhile Text.isWord = name ∧ (name ++ rest).dropWhile Text.isWord = rest := by
  rw [List.takeWhile_append_of_pos named.2, List.dropWhile_append_of_pos named.2]
  cases rest with
  | nil => simp
  | cons c tail =>
      have other : ¬ Text.isWord c = true := by simp [ended c rfl]
      rw [List.takeWhile_cons_of_neg other, List.dropWhile_cons_of_neg other]
      simp

theorem isDirective_name_append {name rest : Text} (named : IsName name)
    (ended : ∀ c ∈ rest.head?, Text.isWord c = false) (noUsing : name ≠ ['u', 's', 'i', 'n', 'g'])
    (noImport : name ≠ ['i', 'm', 'p', 'o', 'r', 't']) : isDirective (name ++ rest) = false := by
  have excluded : ∀ keyword : Text, (∀ c ∈ keyword, Text.isWord c = true) →
      isDirectiveOf keyword (name ++ rest) = true → name = keyword := by
    intro keyword letters directive
    obtain ⟨c, others, shape, blank⟩ := isDirectiveOf_eq_true directive
    have word := (takeWhile_name_append named ended).1
    rw [shape, List.takeWhile_append_of_pos letters, List.takeWhile_cons_of_neg
      (by simp [Text.not_isWord_of_isBlank blank]), List.append_nil] at word
    exact word.symm
  rw [isDirective, Bool.or_eq_false_iff, Bool.eq_false_iff, Bool.eq_false_iff]
  exact ⟨fun directive => noUsing (excluded _ (List.all_eq_true.mp (by decide)) directive),
    fun directive => noImport (excluded _ (List.all_eq_true.mp (by decide)) directive)⟩

theorem exists_concat_of_strip {value : Text} (written : Text.isBlankText value = false) :
    ∃ front last, Text.strip value = front ++ [last] ∧ Text.isBlank last = false := by
  have nonempty : Text.strip value ≠ [] := by
    intro empty
    have blank := Text.isBlankText_strip value
    rw [empty, written] at blank
    contradiction
  refine ⟨(Text.strip value).dropLast, (Text.strip value).getLast nonempty,
    (List.dropLast_append_getLast nonempty).symm, ?_⟩
  exact Bool.eq_false_iff.mpr (List.rdropWhile_last_not Text.isBlank _ nonempty)

theorem afterName?_line {value comment : Text} (noComma : ',' ∉ value)
    (noComment : ¬ commentMark <:+: (Text.strip value).tail) (oneLine : '\n' ∉ comment) :
    afterName? (Entry.valuePart value ++ Entry.lineEnd comment) =
      some (Text.strip value, Text.stripEnd comment) := by
  have ended := entryEnd?_lineEnd oneLine
  cases written : Text.isBlankText value with
  | true =>
      rw [Entry.valuePart, written, if_pos rfl, List.nil_append, afterName?]
      have kept : Text.dropBlank (Entry.lineEnd comment) = Entry.lineEnd comment :=
        Text.dropBlank_cons (by decide) _
      rw [kept]
      split
      · rename_i shape
        simp [Entry.lineEnd] at shape
      · rw [ended, Text.strip_of_isBlankText written]
        rfl
  | false =>
      obtain ⟨front, last, shape, mark⟩ := exists_concat_of_strip written
      have comma : ',' ∉ front ++ [last] := by
        rw [← shape]
        exact fun membership => noComma (Text.mem_of_mem_strip membership)
      have apart : (Entry.lineEnd comment).head? ≠ some '/' := by simp [Entry.lineEnd]
      have first : Text.dropBlank (Text.strip value ++ Entry.lineEnd comment) =
          Text.strip value ++ Entry.lineEnd comment := by
        cases stripped : Text.strip value with
        | nil => simp [stripped] at shape
        | cons c rest =>
            have trimmed : Text.strip (c :: rest) = c :: rest := by
              rw [← stripped, Text.strip_strip]
            exact Text.dropBlank_cons (not_isBlank_head_of_strip_eq trimmed) _
      have line : Entry.valuePart value ++ Entry.lineEnd comment =
          ' ' :: '=' :: ' ' :: (Text.strip value ++ Entry.lineEnd comment) := by
        simp [Entry.valuePart, written]
      have after : Text.dropBlank
          (' ' :: '=' :: ' ' :: (Text.strip value ++ Entry.lineEnd comment)) =
          '=' :: ' ' :: (Text.strip value ++ Entry.lineEnd comment) := by
        rw [Text.dropBlank, List.dropWhile_cons_of_pos (by decide)]
        exact Text.dropBlank_cons (by decide) _
      have inner : Text.dropBlank (' ' :: (Text.strip value ++ Entry.lineEnd comment)) =
          Text.strip value ++ Entry.lineEnd comment := by
        rw [Text.dropBlank, List.dropWhile_cons_of_pos (by decide)]
        exact first
      rw [shape] at noComment
      rw [line, afterName?, after]
      simp only [afterEquals?, inner]
      rw [shape, List.append_assoc, List.singleton_append,
        valueAndComment?_append mark comma noComment apart ended]

include named blank in
/-- The line of an entry is read as the entry if its value, after the first character, has nothing
that a comment could begin with. -/
theorem parse?_render_of_tail (noComma : ',' ∉ entry.value)
    (noComment : ¬ commentMark <:+: (Text.strip entry.value).tail) (oneLine : '\n' ∉ entry.comment) :
    Entry.parse? (entry.render indent) = some entry.trimmed := by
  have parts := takeWhile_name_append named
    (not_isWord_head_of_line entry.value entry.comment)
  rw [Entry.parse?, strip_render named blank]
  simp only [parts.1, parts.2, if_neg named.1, afterName?_line noComma noComment oneLine,
    Option.map_some, Text.strip_strip, Text.stripEnd_stripEnd]
  rfl

include named blank in
theorem parse?_render (noComma : ',' ∉ entry.value) (noComment : ¬ commentMark <:+: entry.value)
    (oneLine : '\n' ∉ entry.comment) :
    Entry.parse? (entry.render indent) = some entry.trimmed := by
  apply parse?_render_of_tail named blank noComma _ oneLine
  intro within
  exact noComment ((within.trans (List.tail_suffix _).isInfix).trans (Text.strip_infix entry.value))

theorem parse?_strip (text : Text) : Entry.parse? (Text.strip text) = Entry.parse? text := by
  rw [Entry.parse?, Text.strip_strip, Entry.parse?]

theorem parse?_eq_some {text : Text} {found : Entry} (read : Entry.parse? text = some found) :
    IsName found.name ∧ found.trimmed = found := by
  unfold Entry.parse? at read
  simp only at read
  split at read
  · contradiction
  · rename_i nameless
    obtain ⟨parts, -, rfl⟩ := Option.map_eq_some_iff.mp read
    refine ⟨⟨nameless, fun _ => List.mem_takeWhile_imp⟩, ?_⟩
    simp [Entry.trimmed]

include named blank in
theorem not_mem_render_front {mark : Char} (noBlank : Text.isBlank mark = false)
    (noWord : Text.isWord mark = false) (noSign : mark ∉ ['=', ','])
    (absent : mark ∉ entry.value) :
    mark ∉ indent ++ entry.name ++ Entry.valuePart entry.value ++ [','] := by
  have plain : mark ≠ ' ' ∧ mark ≠ '=' ∧ mark ≠ ',' := by
    refine ⟨?_, ?_, ?_⟩
    · rintro rfl
      exact absurd noBlank (by decide)
    · rintro rfl
      exact noSign (by simp)
    · rintro rfl
      exact noSign (by simp)
  simp only [List.mem_append, List.mem_singleton, not_or]
  refine ⟨⟨⟨?_, ?_⟩, ?_⟩, plain.2.2⟩
  · exact Text.not_mem_of_isBlankText blank noBlank
  · intro membership
    rw [named.2 mark membership] at noWord
    contradiction
  · unfold Entry.valuePart
    split
    · exact List.not_mem_nil
    · simp only [List.mem_append, List.mem_cons, List.not_mem_nil, or_false, not_or]
      exact ⟨⟨plain.1, plain.2.1, plain.1⟩,
        fun membership => absent (Text.mem_of_mem_strip membership)⟩

include named blank in
theorem mem_render_iff {mark : Char} (noBlank : Text.isBlank mark = false)
    (noWord : Text.isWord mark = false) (noSign : mark ∉ ['=', ',', '/'])
    (absent : mark ∉ entry.value) : mark ∈ entry.render indent ↔ mark ∈ entry.comment := by
  have front := not_mem_render_front named blank noBlank noWord
    (fun sign => noSign (List.mem_append_left ['/'] sign)) absent
  rw [Entry.render, List.mem_append, or_iff_right front, Entry.commentPart]
  split
  · rename_i blankComment
    simp only [List.not_mem_nil, false_iff]
    exact Text.not_mem_of_isBlankText blankComment noBlank
  · rw [List.mem_append, or_iff_right]
    simp only [List.mem_cons, List.not_mem_nil, or_false, not_or] at noSign ⊢
    refine ⟨?_, noSign.2.2, noSign.2.2⟩
    rintro rfl
    exact absurd noBlank (by decide)

include named blank in
/-- Where braces in comments count, those of the comment are all that count in the line of an
entry. -/
theorem delta_perLine_render (braceless : Braceless entry.value) :
    Counting.perLine.delta (entry.render indent) = Counting.perLine.delta entry.comment := by
  simp only [Counting.delta,
    mem_render_iff named blank (by decide) (by decide) (by decide) braceless.1,
    mem_render_iff named blank (by decide) (by decide) (by decide) braceless.2]

include named blank in
theorem braceless_codeOf_render (unquoted : quotationMark ∉ entry.value)
    (braceless : Braceless entry.value) : Braceless (codeOf (entry.render indent)) := by
  have front : Braceless (indent ++ entry.name ++ Entry.valuePart entry.value ++ [',']) :=
    ⟨not_mem_render_front named blank (by decide) (by decide) (by decide) braceless.1,
      not_mem_render_front named blank (by decide) (by decide) (by decide) braceless.2⟩
  have frontUnquoted : quotationMark ∉
      indent ++ entry.name ++ Entry.valuePart entry.value ++ [','] :=
    not_mem_render_front named blank (by decide) (by decide) (by decide) unquoted
  unfold Entry.render Entry.commentPart
  split
  · rw [List.append_nil]
    exact braceless_codeOf front
  · have spaced : quotationMark ∉
        indent ++ entry.name ++ Entry.valuePart entry.value ++ [','] ++ [' '] := by
      simp only [List.mem_append (t := [' ']), not_or]
      exact ⟨frontUnquoted, by decide⟩
    have start := (codeOf_isPrefix_of_unquoted spaced entry.comment).subset
    rw [List.append_assoc] at start
    exact (braceless_append.mpr ⟨front, by decide⟩).subset start

include named blank in
theorem isDirective_render (noUsing : entry.name ≠ ['u', 's', 'i', 'n', 'g'])
    (noImport : entry.name ≠ ['i', 'm', 'p', 'o', 'r', 't']) :
    isDirective (Text.strip (entry.render indent)) = false := by
  rw [strip_render named blank]
  exact isDirective_name_append named (not_isWord_head_of_line entry.value entry.comment) noUsing
    noImport

end Line

/-- Whether the line of an entry has no braces in its code. -/
structure Entry.Flat (entry : Entry) : Prop where
  named : IsName entry.name
  braceless : Braceless entry.value
  unquoted : quotationMark ∉ entry.value

/-- Whether an entry is read back whatever stands around it: its name is a word that is not the
keyword of a directive, its value has none of the marks that could end it or be taken for structure,
and its comment is one line. -/
structure Entry.Plain (entry : Entry) : Prop where
  named : IsName entry.name
  notUsing : entry.name ≠ ['u', 's', 'i', 'n', 'g']
  notImport : entry.name ≠ ['i', 'm', 'p', 'o', 'r', 't']
  noComma : ',' ∉ entry.value
  braceless : Braceless entry.value
  unquoted : quotationMark ∉ entry.value
  noComment : ¬ commentMark <:+: entry.value
  oneLine : '\n' ∉ entry.comment

instance (entry : Entry) : Decidable entry.Plain :=
  decidable_of_iff (IsName entry.name ∧ entry.name ≠ ['u', 's', 'i', 'n', 'g'] ∧
      entry.name ≠ ['i', 'm', 'p', 'o', 'r', 't'] ∧ ',' ∉ entry.value ∧ Braceless entry.value ∧
      quotationMark ∉ entry.value ∧ ¬ commentMark <:+: entry.value ∧ '\n' ∉ entry.comment)
    ⟨fun ⟨named, notUsing, notImport, noComma, braceless, unquoted, noComment, oneLine⟩ =>
        ⟨named, notUsing, notImport, noComma, braceless, unquoted, noComment, oneLine⟩,
      fun ⟨named, notUsing, notImport, noComma, braceless, unquoted, noComment, oneLine⟩ =>
        ⟨named, notUsing, notImport, noComma, braceless, unquoted, noComment, oneLine⟩⟩

theorem Entry.Plain.flat {entry : Entry} (plain : entry.Plain) : entry.Flat :=
  ⟨plain.named, plain.braceless, plain.unquoted⟩

theorem isWritten_of_isName {entry : Entry} (named : IsName entry.name) :
    entry.isWritten = true := by
  rcases named.exists_cons with ⟨first, others, shape, word⟩
  simp [Entry.isWritten, Text.isBlankText, shape, Text.not_isBlank_of_isWord word]

end EnumBlocks
