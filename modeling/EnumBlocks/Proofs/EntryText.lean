import EnumBlocks.Proofs.Entry

/-!
The text of an entry in a list. However it is spaced, the entry is read from it, with or without a
comma behind it. A text with several entries is never taken for a single one: a comma with more than
blanks behind it is neither part of a value nor the end of an entry.
-/

namespace EnumBlocks

/-- Whether an entry can stand in a list: it is read back whatever stands around it, has no comment,
and its value is trimmed and could not begin a comment. -/
structure Entry.Listed (entry : Entry) : Prop where
  plain : entry.Plain
  uncommented : entry.comment = []
  trimmed : Text.strip entry.value = entry.value
  slashless : '/' ∉ entry.value

instance (entry : Entry) : Decidable entry.Listed :=
  decidable_of_iff (entry.Plain ∧ entry.comment = [] ∧ Text.strip entry.value = entry.value ∧
      '/' ∉ entry.value)
    ⟨fun ⟨plain, uncommented, trimmed, slashless⟩ => ⟨plain, uncommented, trimmed, slashless⟩,
      fun ⟨plain, uncommented, trimmed, slashless⟩ => ⟨plain, uncommented, trimmed, slashless⟩⟩

/-- How an entry of a list is spelled: its name, and an equals sign with its value if it has one,
with any blanks around each. -/
inductive Entry.SpelledAs (entry : Entry) : Text → Prop where
  | bare {before after : Text} (valueless : entry.value = [])
      (beforeBlank : Text.isBlankText before = true) (afterBlank : Text.isBlankText after = true) :
      SpelledAs entry (before ++ (entry.name ++ after))
  | valued {before gap between after : Text} (written : entry.value ≠ [])
      (beforeBlank : Text.isBlankText before = true) (gapBlank : Text.isBlankText gap = true)
      (betweenBlank : Text.isBlankText between = true)
      (afterBlank : Text.isBlankText after = true) :
      SpelledAs entry
        (before ++ (entry.name ++ (gap ++ '=' :: (between ++ (entry.value ++ after)))))

/-- What may stand behind an entry: blanks, and at most one comma among them. -/
inductive EndsEntry : Text → Prop where
  | blank {text : Text} (blank : Text.isBlankText text = true) : EndsEntry text
  | comma {before after : Text} (beforeBlank : Text.isBlankText before = true)
      (afterBlank : Text.isBlankText after = true) : EndsEntry (before ++ ',' :: after)

namespace EndsEntry

theorem nil : EndsEntry [] := .blank rfl

theorem comma_cons {after : Text} (blank : Text.isBlankText after = true) :
    EndsEntry (',' :: after) :=
  @EndsEntry.comma [] after rfl blank

variable {text : Text} (ends : EndsEntry text)

include ends in
theorem blank_append {blanks : Text} (blank : Text.isBlankText blanks = true) :
    EndsEntry (blanks ++ text) := by
  cases ends with
  | blank own => exact .blank (Text.isBlankText_append.mpr ⟨blank, own⟩)
  | comma beforeBlank afterBlank =>
      rw [← List.append_assoc]
      exact .comma (Text.isBlankText_append.mpr ⟨blank, beforeBlank⟩) afterBlank

include ends in
theorem stripEnd : EndsEntry (Text.stripEnd text) := by
  cases ends with
  | blank own =>
      rw [Text.stripEnd_eq_nil_iff.mpr own]
      exact .blank rfl
  | comma beforeBlank afterBlank =>
      rw [Text.stripEnd_append_cons (by decide), Text.stripEnd_eq_nil_iff.mpr afterBlank]
      exact .comma beforeBlank rfl

include ends in
theorem dropBlank_cases :
    Text.dropBlank text = [] ∨
      ∃ after, Text.isBlankText after = true ∧ Text.dropBlank text = ',' :: after := by
  cases ends with
  | blank own => exact .inl (Text.dropBlank_eq_nil own)
  | @comma before after beforeBlank afterBlank =>
      refine .inr ⟨after, afterBlank, ?_⟩
      rw [Text.dropBlank_append beforeBlank, Text.dropBlank_cons (by decide)]

include ends in
theorem entryEnd?_eq : entryEnd? text = some [] := by
  rcases ends.dropBlank_cases with nothing | ⟨after, blank, comma⟩
  · rw [entryEnd?, nothing]
    rfl
  · rw [entryEnd?, comma]
    simp only [Text.dropBlank_eq_nil blank]
    rfl

include ends in
theorem afterName?_eq : afterName? text = some ([], []) := by
  rcases ends.dropBlank_cases with nothing | ⟨after, blank, comma⟩
  · rw [afterName?, nothing]
    rfl
  · rw [afterName?, comma]
    simp [(comma_cons blank).entryEnd?_eq]

include ends in
theorem not_mem {mark : Char} (noBlank : Text.isBlank mark = false) (noComma : mark ≠ ',') :
    mark ∉ text := by
  cases ends with
  | blank own => exact Text.not_mem_of_isBlankText own noBlank
  | comma beforeBlank afterBlank =>
      rw [List.mem_append, List.mem_cons, not_or, not_or]
      exact ⟨Text.not_mem_of_isBlankText beforeBlank noBlank, noComma,
        Text.not_mem_of_isBlankText afterBlank noBlank⟩

include ends in
theorem not_isWord_head : ∀ c ∈ text.head?, Text.isWord c = false := by
  intro c first
  rw [Bool.eq_false_iff]
  intro word
  refine ends.not_mem (Text.not_isBlank_of_isWord word) ?_ (List.mem_of_mem_head? first)
  rintro rfl
  exact absurd word (by decide)

end EndsEntry

theorem not_isWord_head_blank_append {blanks rest : Text} (blank : Text.isBlankText blanks = true)
    (ended : ∀ c ∈ rest.head?, Text.isWord c = false) :
    ∀ c ∈ (blanks ++ rest).head?, Text.isWord c = false := by
  cases blanks with
  | nil => exact ended
  | cons space others =>
      rintro c ⟨⟩
      exact Text.not_isWord_of_isBlank (Text.isBlankText_iff.mp blank space List.mem_cons_self)

theorem IsName.exists_concat {name : Text} (named : IsName name) :
    ∃ front last, name = front ++ [last] ∧ Text.isBlank last = false :=
  ⟨name.dropLast, name.getLast named.1, (List.dropLast_append_getLast named.1).symm,
    named.not_isBlank _ (List.getLast_mem named.1)⟩

theorem strip_name_append {name : Text} (named : IsName name) (rest : Text) :
    Text.strip (name ++ rest) = name ++ Text.stripEnd rest := by
  obtain ⟨first, others, shape, word⟩ := named.exists_cons
  have kept : Text.dropBlank (name ++ rest) = name ++ rest := by
    rw [shape]
    exact Text.dropBlank_cons (Text.not_isBlank_of_isWord word) _
  rw [Text.strip, kept]
  exact Text.stripEnd_append_word named.exists_concat [] rest

section Spelled

variable {entry : Entry} (listed : entry.Listed) {text : Text} (spelled : entry.SpelledAs text)

include listed in
theorem exists_concat_value (written : entry.value ≠ []) :
    ∃ front last, entry.value = front ++ [last] ∧ Text.isBlank last = false := by
  have shown : Text.isBlankText entry.value = false := by
    rw [Bool.eq_false_iff]
    intro blank
    have trimmed := listed.trimmed
    rw [Text.strip_of_isBlankText blank] at trimmed
    exact written trimmed.symm
  rw [← listed.trimmed]
  exact exists_concat_of_strip shown

include listed in
theorem afterEquals?_value (written : entry.value ≠ []) {between rest : Text}
    (blank : Text.isBlankText between = true) (ends : EndsEntry rest) :
    afterEquals? (between ++ (entry.value ++ rest)) = some (entry.value, []) := by
  obtain ⟨front, last, shape, mark⟩ := exists_concat_value listed written
  have kept : Text.dropBlank (entry.value ++ rest) = entry.value ++ rest := by
    cases value : entry.value with
    | nil => exact absurd value written
    | cons c others =>
        have trimmed := listed.trimmed
        rw [value] at trimmed
        exact Text.dropBlank_cons (not_isBlank_head_of_strip_eq trimmed) _
  have noComma := listed.plain.noComma
  have noComment : ¬ commentMark <:+: entry.value.tail := fun within =>
    listed.plain.noComment (within.trans (List.tail_suffix _).isInfix)
  have apart : rest.head? ≠ some '/' := fun first =>
    ends.not_mem (by decide) (by decide) (List.mem_of_mem_head? first)
  rw [shape] at noComma noComment
  rw [afterEquals?, Text.dropBlank_append blank, kept, shape, List.append_assoc,
    List.singleton_append, valueAndComment?_append mark noComma noComment apart ends.entryEnd?_eq]

include listed spelled in
/-- An entry is read from its text, with or without a comma behind it. -/
theorem parse?_spelled {rest : Text} (ends : EndsEntry rest) :
    Entry.parse? (text ++ rest) = some entry := by
  have named := listed.plain.named
  have same : (⟨entry.name, Text.strip entry.value, Text.stripEnd []⟩ : Entry) = entry := by
    cases entry with
    | mk name value comment =>
        exact congrArg₂ (Entry.mk name) listed.trimmed listed.uncommented.symm
  cases spelled with
  | @bare before after valueless beforeBlank afterBlank =>
      have behind := (ends.blank_append afterBlank).stripEnd
      have parts := takeWhile_name_append named behind.not_isWord_head
      rw [List.append_assoc, List.append_assoc, Entry.parse?, Text.strip_indent_append beforeBlank,
        strip_name_append named]
      simp only [parts.1, parts.2, if_neg named.1, behind.afterName?_eq, Option.map_some]
      rw [valueless] at same
      rw [same]
  | @valued before gap between after written beforeBlank gapBlank betweenBlank afterBlank =>
      have behind := (ends.blank_append afterBlank).stripEnd
      have trimmed := Text.stripEnd_append_word (exists_concat_value listed written)
        (gap ++ '=' :: between) (after ++ rest)
      simp only [List.append_assoc, List.cons_append] at trimmed
      have sign : ∀ c ∈ ('=' :: (between ++ (entry.value ++ Text.stripEnd (after ++ rest)))).head?,
          Text.isWord c = false := by
        simp
        decide
      have parts := takeWhile_name_append named (not_isWord_head_blank_append gapBlank sign)
      have signed : Text.dropBlank
          (gap ++ '=' :: (between ++ (entry.value ++ Text.stripEnd (after ++ rest)))) =
          '=' :: (between ++ (entry.value ++ Text.stripEnd (after ++ rest))) := by
        rw [Text.dropBlank_append gapBlank, Text.dropBlank_cons (by decide)]
      have whole : before ++ (entry.name ++ (gap ++ '=' :: (between ++ (entry.value ++ after)))) ++
          rest = before ++ (entry.name ++
            (gap ++ '=' :: (between ++ (entry.value ++ (after ++ rest))))) := by
        simp
      rw [whole, Entry.parse?, Text.strip_indent_append beforeBlank, strip_name_append named,
        trimmed]
      simp only [parts.1, parts.2, if_neg named.1, afterName?, signed,
        afterEquals?_value listed written betweenBlank behind, Option.map_some]
      rw [same]

end Spelled

section Refused

variable {front rest : Text} (slashless : '/' ∉ front ++ ',' :: rest)
  (written : Text.isBlankText rest = false)

include slashless written in
theorem entryEnd?_list : entryEnd? (front ++ ',' :: rest) = none := by
  have refused : ∀ behind : Text, '/' ∉ behind → Text.isBlankText behind = false →
      entryEnd? (',' :: behind) = none := by
    intro behind slashless written
    obtain ⟨c, others, shape, mark⟩ := Text.exists_dropBlank written
    have noSlash : c ≠ '/' := by
      rintro rfl
      apply slashless
      apply (List.dropWhile_suffix Text.isBlank).subset
      rw [← Text.dropBlank, shape]
      exact List.mem_cons_self
    rw [entryEnd?, Text.dropBlank_cons (by decide)]
    simp only [shape]
    exact commentAtEnd?_eq_none fun slashes => noSlash slashes.1
  induction front with
  | nil =>
      exact refused rest (fun membership => slashless (List.mem_cons_of_mem _ membership)) written
  | cons c tail inductionHypothesis =>
      rw [List.cons_append, List.mem_cons, not_or] at slashless
      rw [List.cons_append]
      cases blank : Text.isBlank c with
      | true =>
          rw [entryEnd?_cons_of_blank blank]
          exact inductionHypothesis slashless.2
      | false =>
          by_cases comma : c = ','
          · subst comma
            refine refused _ slashless.2 ?_
            rw [Bool.eq_false_iff]
            intro whole
            exact Text.not_mem_of_isBlankText whole (by decide)
              (List.mem_append_right tail List.mem_cons_self)
          · exact entryEnd?_eq_none blank comma fun slashes => slashless.1 slashes.1.symm

include slashless written in
theorem valueAndComment?_list : valueAndComment? (front ++ ',' :: rest) = none := by
  induction front with
  | nil => rw [List.nil_append, valueAndComment?, if_pos rfl]
  | cons c tail inductionHypothesis =>
      rw [List.cons_append, List.mem_cons, not_or] at slashless
      rw [List.cons_append, valueAndComment?, entryEnd?_list slashless.2 written,
        inductionHypothesis slashless.2]
      split <;> rfl

include slashless in
theorem slashless_dropWhile (test : Char → Bool) : '/' ∉ front.dropWhile test ++ ',' :: rest := by
  rw [List.mem_append, not_or] at slashless ⊢
  exact ⟨fun membership => slashless.1 ((List.dropWhile_suffix test).subset membership),
    slashless.2⟩

include slashless written in
theorem afterEquals?_list : afterEquals? (front ++ ',' :: rest) = none := by
  have apart := slashless_dropWhile slashless Text.isBlank
  rw [afterEquals?, Text.dropBlank_append_cons (by decide), Text.dropBlank,
    valueAndComment?_list apart written, entryEnd?_list apart written]
  split
  · contradiction
  · split <;> rfl

include slashless written in
theorem afterName?_list : afterName? (front ++ ',' :: rest) = none := by
  have apart := slashless_dropWhile slashless Text.isBlank
  rw [afterName?, Text.dropBlank_append_cons (by decide)]
  rw [← Text.dropBlank] at apart
  cases shape : Text.dropBlank front with
  | nil =>
      rw [shape] at apart
      simpa using entryEnd?_list apart written
  | cons c tail =>
      rw [shape] at apart
      rw [List.cons_append] at apart ⊢
      by_cases sign : c = '='
      · subst sign
        rw [List.mem_cons, not_or] at apart
        exact afterEquals?_list apart.2 written
      · split
        · rename_i equality
          exact absurd (List.cons.inj equality).1 sign
        · rw [← List.cons_append] at apart ⊢
          rw [entryEnd?_list apart written]
          rfl

include slashless written in
theorem parse?_list : Entry.parse? (front ++ ',' :: rest) = none := by
  have stillWritten : Text.isBlankText (Text.stripEnd rest) = false := by
    obtain ⟨blanks, blank, whole⟩ := Text.exists_stripEnd_append rest
    rw [Bool.eq_false_iff]
    intro trimmedBlank
    rw [whole, Text.isBlankText_append.mpr ⟨trimmedBlank, blank⟩] at written
    contradiction
  have apart : '/' ∉ (Text.dropBlank front).dropWhile Text.isWord ++ ',' :: Text.stripEnd rest := by
    obtain ⟨blanks, -, whole⟩ := Text.exists_stripEnd_append rest
    apply slashless_dropWhile
    have start := slashless_dropWhile slashless Text.isBlank
    rw [whole] at start
    simp only [List.mem_append, List.mem_cons, not_or] at start ⊢
    exact ⟨start.1, start.2.1, start.2.2.1⟩
  rw [Entry.parse?, Text.strip_append_cons (by decide), Text.dropWhile_append_cons (by decide),
    afterName?_list apart stillWritten]
  simp

end Refused

namespace Entry.SpelledAs

variable {entry : Entry} (named : IsName entry.name) {text : Text} (spelled : entry.SpelledAs text)

include named spelled in
theorem not_mem {mark : Char} (noBlank : Text.isBlank mark = false)
    (noWord : Text.isWord mark = false) (noSign : mark ≠ '=') (absent : mark ∉ entry.value) :
    mark ∉ text := by
  have notBlank : ∀ {blanks : Text}, Text.isBlankText blanks = true → mark ∉ blanks :=
    fun blank => Text.not_mem_of_isBlankText blank noBlank
  have notName : mark ∉ entry.name := by
    intro membership
    rw [named.2 mark membership] at noWord
    contradiction
  cases spelled with
  | bare valueless beforeBlank afterBlank =>
      simp only [List.mem_append, not_or]
      exact ⟨notBlank beforeBlank, notName, notBlank afterBlank⟩
  | valued written beforeBlank gapBlank betweenBlank afterBlank =>
      simp only [List.mem_append, List.mem_cons, not_or]
      exact ⟨notBlank beforeBlank, notName, notBlank gapBlank, noSign, notBlank betweenBlank, absent,
        notBlank afterBlank⟩

include spelled in
theorem exists_name :
    ∃ before gap rest, Text.isBlankText before = true ∧ Text.isBlankText gap = true ∧
      (∀ c ∈ rest.head?, c = '=') ∧ text = before ++ (entry.name ++ (gap ++ rest)) := by
  cases spelled with
  | @bare before after valueless beforeBlank afterBlank =>
      exact ⟨before, after, [], beforeBlank, afterBlank, by simp, by rw [List.append_nil]⟩
  | valued written beforeBlank gapBlank betweenBlank afterBlank =>
      exact ⟨_, _, _, beforeBlank, gapBlank, by simp, rfl⟩

include named spelled in
theorem isBlankText_eq_false : Text.isBlankText text = false := by
  obtain ⟨before, gap, rest, -, -, -, rfl⟩ := spelled.exists_name
  obtain ⟨first, others, shape, word⟩ := named.exists_cons
  exact Text.isBlankText_eq_false_of_isWord (by simp [shape]) word

include named spelled in
theorem dropBlank : entry.SpelledAs (Text.dropBlank text) := by
  obtain ⟨first, others, shape, word⟩ := named.exists_cons
  have kept : ∀ {before : Text}, Text.isBlankText before = true → ∀ rest : Text,
      Text.dropBlank (before ++ (entry.name ++ rest)) = [] ++ (entry.name ++ rest) := by
    intro before blank rest
    rw [Text.dropBlank_append blank, shape, List.cons_append,
      Text.dropBlank_cons (Text.not_isBlank_of_isWord word), List.nil_append]
  cases spelled with
  | bare valueless beforeBlank afterBlank =>
      rw [kept beforeBlank]
      exact .bare valueless rfl afterBlank
  | valued written beforeBlank gapBlank betweenBlank afterBlank =>
      rw [kept beforeBlank]
      exact .valued written rfl gapBlank betweenBlank afterBlank

end Entry.SpelledAs

theorem Entry.SpelledAs.stripEnd {entry : Entry} (listed : entry.Listed) {text : Text}
    (spelled : entry.SpelledAs text) : entry.SpelledAs (Text.stripEnd text) := by
  cases spelled with
  | bare valueless beforeBlank afterBlank =>
      rw [Text.stripEnd_append_word listed.plain.named.exists_concat,
        Text.stripEnd_eq_nil_iff.mpr afterBlank]
      exact .bare valueless beforeBlank rfl
  | @valued before gap between after written beforeBlank gapBlank betweenBlank afterBlank =>
      have trimmed := Text.stripEnd_append_word (exists_concat_value listed written)
        (before ++ (entry.name ++ (gap ++ '=' :: between))) after
      rw [Text.stripEnd_eq_nil_iff.mpr afterBlank] at trimmed
      simp only [List.append_assoc, List.cons_append] at trimmed
      rw [trimmed]
      exact .valued written beforeBlank gapBlank betweenBlank rfl

end EnumBlocks
