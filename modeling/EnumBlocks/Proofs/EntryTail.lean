import EnumBlocks.Proofs.EntryText

/-!
What stands behind an entry on its line. Blanks, a comment, or both make no difference to what is
read in front of them, as long as no two slashes begin there.
-/

namespace EnumBlocks

theorem commentMark_infix_cons {c : Char} {rest : Text} :
    commentMark <:+: c :: rest ↔
      (c = '/' ∧ rest.head? = some '/') ∨ commentMark <:+: rest := by
  rw [List.infix_cons_iff, commentMark, List.cons_prefix_cons,
    List.singleton_prefix_iff_head?_eq_some, eq_comm]

theorem head?_append_take (front rest : Text) :
    (front ++ rest.take 1).head? = (front ++ rest).head? := by
  cases front with
  | nil => cases rest <;> rfl
  | cons c others => rfl

theorem not_slashes_of_append {c : Char} {front rest : Text}
    (apart : ¬ (c = '/' ∧ (front ++ rest).head? = some '/')) :
    ¬ (c = '/' ∧ front.head? = some '/') := by
  rintro ⟨slash, second⟩
  exact apart ⟨slash, by rw [List.head?_append, second, Option.some_or]⟩

theorem take_one_append_isPrefix (front rest : Text) :
    (front ++ rest).take 1 <+: front ++ rest.take 1 := by
  cases front with
  | nil => exact List.prefix_rfl
  | cons c others => exact ⟨others ++ rest.take 1, rfl⟩

theorem afterName?_of_unsigned {text : Text}
    (unsigned : ∀ rest, Text.dropBlank text ≠ '=' :: rest) :
    afterName? text = (entryEnd? text).map fun comment => ([], comment) := by
  have again : Text.dropBlank (Text.dropBlank text) = Text.dropBlank text :=
    List.dropWhile_idempotent Text.isBlank text
  have dropped : entryEnd? (Text.dropBlank text) = entryEnd? text := by
    rw [entryEnd?, again, entryEnd?]
  rw [afterName?]
  split
  · rename_i rest shape
    exact absurd shape (unsigned rest)
  · rw [dropped]

section Ending

/-! A tail that is blank or begins a comment, behind a text in which no two slashes begin. -/

variable {code tail comment : Text}
  (ending : commentAtEnd? (Text.dropBlank tail) = some comment)
  (slashless : ¬ commentMark <:+: code ++ tail.take 1)

include ending slashless in
theorem commentAtEnd?_append :
    commentAtEnd? (Text.dropBlank (code ++ tail)) =
      (commentAtEnd? (Text.dropBlank code)).map fun _ => comment := by
  induction code with
  | nil => exact ending
  | cons c rest inductionHypothesis =>
      rw [List.cons_append, commentMark_infix_cons, not_or, head?_append_take] at slashless
      rw [List.cons_append]
      cases blank : Text.isBlank c with
      | true =>
          rw [Text.dropBlank, List.dropWhile_cons_of_pos blank, Text.dropBlank,
            List.dropWhile_cons_of_pos blank]
          exact inductionHypothesis slashless.2
      | false =>
          have alone := not_slashes_of_append slashless.1
          rw [Text.dropBlank_cons blank, Text.dropBlank_cons blank,
            commentAtEnd?_eq_none slashless.1, commentAtEnd?_eq_none alone]
          rfl

include ending in
theorem entryEnd?_ending : entryEnd? tail = some comment := by
  rw [entryEnd?]
  split
  · rename_i shape
    rw [shape] at ending
    contradiction
  · exact ending

include ending slashless in
theorem entryEnd?_append :
    entryEnd? (code ++ tail) = (entryEnd? code).map fun _ => comment := by
  induction code with
  | nil => exact entryEnd?_ending ending
  | cons c rest inductionHypothesis =>
      rw [List.cons_append, commentMark_infix_cons, not_or, head?_append_take] at slashless
      rw [List.cons_append]
      cases blank : Text.isBlank c with
      | true =>
          rw [entryEnd?_cons_of_blank blank, entryEnd?_cons_of_blank blank]
          exact inductionHypothesis slashless.2
      | false =>
          by_cases comma : c = ','
          · subst comma
            rw [entryEnd?, Text.dropBlank_cons blank, entryEnd?, Text.dropBlank_cons blank]
            exact commentAtEnd?_append ending slashless.2
          · have alone := not_slashes_of_append slashless.1
            rw [entryEnd?_eq_none blank comma slashless.1, entryEnd?_eq_none blank comma alone]
            rfl

include ending slashless in
/-- The shortest value is the same with the tail, unless there is nothing in front of the tail. -/
theorem valueAndComment?_append_tail (written : code ≠ []) :
    valueAndComment? (code ++ tail) =
      (valueAndComment? code).map fun parts => (parts.1, comment) := by
  induction code with
  | nil => contradiction
  | cons c rest inductionHypothesis =>
      rw [List.cons_append, commentMark_infix_cons, not_or] at slashless
      rw [List.cons_append, valueAndComment?, valueAndComment?,
        entryEnd?_append ending slashless.2]
      split
      · rfl
      · cases ended : entryEnd? rest with
        | some own => rfl
        | none =>
            have more : rest ≠ [] := by
              rintro rfl
              contradiction
            rw [Option.map_none, inductionHypothesis slashless.2 more, Option.map_map,
              Option.map_map]
            rfl

include ending slashless in
theorem afterEquals?_append (written : Text.isBlankText code = false) :
    afterEquals? (code ++ tail) =
      (afterEquals? code).map fun parts => (parts.1, comment) := by
  obtain ⟨c, rest, shape, mark⟩ := Text.exists_dropBlank written
  have parts : code = Text.indentOf code ++ c :: rest := by
    rw [← shape, Text.indentOf_append_dropBlank]
  have inner : ¬ commentMark <:+: (c :: rest) ++ tail.take 1 := by
    intro within
    rw [parts, List.append_assoc] at slashless
    exact slashless (within.trans (List.suffix_append _ _).isInfix)
  have indent : Text.indentOf (code ++ tail) = Text.indentOf code := by
    conv_lhs => rw [parts, List.append_assoc, Text.indentOf_append (Text.isBlankText_indentOf code),
      List.cons_append, Text.indentOf_cons mark, List.append_nil]
  rw [afterEquals?, afterEquals?, Text.dropBlank_append_of_cons shape, shape, indent,
    ← List.cons_append,
    valueAndComment?_append_tail ending inner (List.cons_ne_nil _ _),
    entryEnd?_append ending inner]
  cases valueAndComment? (c :: rest) with
  | some found => rfl
  | none =>
      rw [Option.map_none]
      simp only
      split
      · rfl
      · rw [Option.map_map, Option.map_map]
        rfl

include ending in
theorem unsigned_append (unsigned : ∀ rest, Text.dropBlank code ≠ '=' :: rest) (rest : Text) :
    Text.dropBlank (code ++ tail) ≠ '=' :: rest := by
  intro shape
  cases written : Text.isBlankText code with
  | true =>
      rw [Text.dropBlank_append written] at shape
      rw [shape] at ending
      contradiction
  | false =>
      obtain ⟨c, others, own, -⟩ := Text.exists_dropBlank written
      rw [Text.dropBlank_append_of_cons own] at shape
      exact unsigned others (own.trans (congrArg (· :: others) (List.cons.inj shape).1))

include ending slashless in
/-- What follows a name is read the same with the tail, unless an equals sign has nothing behind it
but the tail. -/
theorem afterName?_append
    (valued : ∀ rest, Text.dropBlank code = '=' :: rest → Text.isBlankText rest = false) :
    afterName? (code ++ tail) = (afterName? code).map fun parts => (parts.1, comment) := by
  by_cases unsigned : ∀ rest, Text.dropBlank code ≠ '=' :: rest
  · rw [afterName?_of_unsigned (unsigned_append ending unsigned), afterName?_of_unsigned unsigned,
      entryEnd?_append ending slashless, Option.map_map, Option.map_map]
    rfl
  · simp only [ne_eq, not_forall, not_not] at unsigned
    obtain ⟨rest, shape⟩ := unsigned
    have inner : ¬ commentMark <:+: rest ++ tail.take 1 := by
      intro within
      rw [← Text.indentOf_append_dropBlank code, shape, List.append_assoc,
        List.cons_append] at slashless
      exact slashless ((within.trans (List.suffix_cons '=' _).isInfix).trans
        (List.suffix_append _ _).isInfix)
    rw [afterName?, Text.dropBlank_append_of_cons shape, afterName?, shape]
    exact afterEquals?_append ending inner (valued rest shape)

include ending slashless in
/-- An entry is read in front of the tail, and its comment is that of the tail. -/
theorem parse?_of_strip {text name : Text} (shape : Text.strip text = name ++ (code ++ tail))
    (named : IsName name) (ended : ∀ c ∈ (code ++ tail).head?, Text.isWord c = false)
    (valued : ∀ rest, Text.dropBlank code = '=' :: rest → Text.isBlankText rest = false) :
    Entry.parse? text = (afterName? code).map fun parts =>
      ⟨name, Text.strip parts.1, Text.stripEnd comment⟩ := by
  have parts := takeWhile_name_append named ended
  rw [Entry.parse?, shape]
  simp only [parts.1, parts.2, if_neg named.1, afterName?_append ending slashless valued,
    Option.map_map]
  rfl

end Ending

theorem parse?_of_unvalued {name rest tail : Text} (named : IsName name)
    (ended : ∀ c ∈ rest.head?, Text.isWord c = false) (sign : Text.dropBlank rest = '=' :: tail)
    (blank : Text.isBlankText tail = true) : Entry.parse? (name ++ rest) = none := by
  have parts : rest = Text.indentOf rest ++ '=' :: tail := by
    rw [← sign, Text.indentOf_append_dropBlank]
  have trimmed : Text.stripEnd rest = Text.indentOf rest ++ ['='] := by
    conv_lhs => rw [parts, Text.stripEnd_append_cons (by decide),
      Text.stripEnd_eq_nil_iff.mpr blank]
  have still : ∀ c ∈ (Text.stripEnd rest).head?, Text.isWord c = false :=
    fun c first => ended c (Text.mem_head?_of_stripEnd first)
  have split := takeWhile_name_append named still
  have dropped : Text.dropBlank (Text.stripEnd rest) = ['='] := by
    rw [trimmed, Text.dropBlank_append (Text.isBlankText_indentOf rest)]
    rfl
  have nothing : afterName? (Text.stripEnd rest) = none := by
    rw [afterName?, dropped]
    rfl
  rw [Entry.parse?, strip_name_append named]
  simp only [split.1, split.2, if_neg named.1, nothing, Option.map_none]

end EnumBlocks
