import EnumBlocks.Proofs.Insertion

/-!
Documents are read trimmed, line by line. The blanks at either end of a line concern nothing but the
indent of a declaration, and a line of blanks alone changes nothing. The outline of a document
depends on the lines that hold something, without the blanks around them.
-/

namespace EnumBlocks

namespace Text

theorem indentOf_append_of_written {text : Text} (written : isBlankText text = false)
    (more : Text) : indentOf (text ++ more) = indentOf text := by
  obtain ⟨c, rest, shape, mark⟩ := exists_dropBlank written
  have whole := indentOf_append_dropBlank text
  rw [shape] at whole
  have blank := isBlankText_indentOf text
  conv_lhs => rw [← whole, List.append_assoc, List.cons_append, indentOf_append blank,
    indentOf_cons mark, List.append_nil]

theorem takeWhile_append_blank {blanks : Text} (blank : isBlankText blanks = true) (text : Text) :
    (text ++ blanks).takeWhile isWord = text.takeWhile isWord := by
  have nothing : blanks.takeWhile isWord = [] := by
    cases blanks with
    | nil => rfl
    | cons space others =>
        have noWord := not_isWord_of_isBlank (isBlankText_cons.mp blank).1
        exact List.takeWhile_cons_of_neg (by simp [noWord])
  rw [List.takeWhile_append, nothing]
  split
  · rename_i same
    rw [List.append_nil]
    exact ((List.takeWhile_prefix isWord).eq_of_length same).symm
  · rfl

theorem dropWhile_append_blank {blanks : Text} (blank : isBlankText blanks = true) (text : Text) :
    (text ++ blanks).dropWhile isWord = text.dropWhile isWord ++ blanks := by
  have parts : (text ++ blanks).takeWhile isWord ++ (text ++ blanks).dropWhile isWord =
      text.takeWhile isWord ++ (text.dropWhile isWord ++ blanks) := by
    rw [← List.append_assoc, List.takeWhile_append_dropWhile, List.takeWhile_append_dropWhile]
  rw [takeWhile_append_blank blank] at parts
  exact List.append_cancel_left parts

theorem head?_dropBlank_append_blank {blanks : Text} (blank : isBlankText blanks = true)
    (text : Text) : (dropBlank (text ++ blanks)).head? = (dropBlank text).head? := by
  cases written : isBlankText text with
  | true => rw [dropBlank_append written, dropBlank_eq_nil written, dropBlank_eq_nil blank]
  | false =>
      obtain ⟨c, rest, shape, -⟩ := exists_dropBlank written
      rw [dropBlank_append_of_cons shape, shape]
      rfl

end Text

theorem splitAttributes_unclosed {inner : Text} (inside : ']' ∉ inner) (held : Text) :
    splitAttributes (some held) inner = ([], held.reverse ++ inner) := by
  induction inner generalizing held with
  | nil => simp [splitAttributes]
  | cons c rest inductionHypothesis =>
      rw [List.mem_cons, not_or] at inside
      rw [splitAttributes, if_neg (Ne.symm inside.1), inductionHypothesis inside.2]
      simp

theorem splitAttributes_of_isBlankText {blanks : Text} (blank : Text.isBlankText blanks = true) :
    splitAttributes none blanks = (blanks, []) := by
  have whole := splitAttributes_append (areAttributes_of_isBlankText blank) []
  simpa [splitAttributes] using whole

theorem afterKeyword?_of_isBlankText {line : Text} (blank : Text.isBlankText line = true) :
    afterKeyword? line = none := by
  rw [afterKeyword?, splitAttributes_of_isBlankText blank]
  rfl

section Blanks

variable {blanks : Text} (blank : Text.isBlankText blanks = true)

include blank in
theorem exists_splitAttributes_append_blank (held : Option Text) (line : Text) :
    ∃ tail, Text.isBlankText tail = true ∧
      (splitAttributes held (line ++ blanks)).2 = (splitAttributes held line).2 ++ tail := by
  induction line generalizing held with
  | nil =>
      cases held with
      | none => exact ⟨[], rfl, congrArg Prod.snd (splitAttributes_of_isBlankText blank)⟩
      | some inner =>
          have inside : ']' ∉ blanks := Text.not_mem_of_isBlankText blank (by decide)
          exact ⟨blanks, blank, congrArg Prod.snd (splitAttributes_unclosed inside inner)⟩
  | cons c rest inductionHypothesis =>
      rw [List.cons_append]
      cases held with
      | none =>
          rw [splitAttributes, splitAttributes]
          split
          · exact inductionHypothesis none
          · split
            · exact inductionHypothesis (some ['['])
            · exact ⟨blanks, blank, rfl⟩
      | some inner =>
          rw [splitAttributes, splitAttributes]
          split
          · exact inductionHypothesis none
          · exact inductionHypothesis (some (c :: inner))

include blank in
/-- Blanks behind a line stay behind its modifiers, unless the last word is one: a modifier counts
only in front of a blank. -/
theorem dropModifiers_append_blank (held line : Text) :
    (∃ tail, Text.isBlankText tail = true ∧
        dropModifiers held (line ++ blanks) = dropModifiers held line ++ tail) ∨
      (dropModifiers held (line ++ blanks) = [] ∧ dropModifiers held line ∈ modifiers) := by
  induction line generalizing held with
  | nil =>
      cases blanks with
      | nil => exact .inl ⟨[], rfl, (List.append_nil _).symm⟩
      | cons space others =>
          have blankOthers := Text.isBlankText_cons.mp blank
          have spent : dropModifiers [] others = [] := by
            have dropped := dropModifiers_blank_append blankOthers.2 []
            rwa [List.append_nil] at dropped
          rw [List.nil_append, dropModifiers, dropModifiers, if_pos blankOthers.1, spent]
          split
          · rename_i modifier
            rcases modifier with rfl | modifier
            · exact .inl ⟨[], rfl, rfl⟩
            · exact .inr ⟨rfl, modifier⟩
          · exact .inl ⟨space :: others, blank, rfl⟩
  | cons c rest inductionHypothesis =>
      rw [List.cons_append, dropModifiers, dropModifiers]
      split
      · split
        · exact inductionHypothesis []
        · exact .inl ⟨blanks, blank, by simp⟩
      · exact inductionHypothesis (c :: held)

include blank in
theorem isPrefixOf?_append_blank {word : Text} (unbroken : ∀ c ∈ word, Text.isBlank c = false)
    (text : Text) :
    word.isPrefixOf? (text ++ blanks) = (word.isPrefixOf? text).map (· ++ blanks) := by
  induction word generalizing text with
  | nil => rfl
  | cons c rest inductionHypothesis =>
      rw [List.forall_mem_cons] at unbroken
      cases text with
      | nil =>
          cases blanks with
          | nil => rfl
          | cons space others =>
              have different := ne_of_isBlank (Text.isBlankText_cons.mp blank).1 unbroken.1
              simp [List.isPrefixOf?, Ne.symm different]
      | cons d tail =>
          rw [List.cons_append, List.isPrefixOf?, List.isPrefixOf?]
          split
          · exact inductionHypothesis unbroken.2 tail
          · rfl

include blank in
theorem exists_afterKeyword?_append_blank (line : Text) :
    ∃ tail, Text.isBlankText tail = true ∧
      afterKeyword? (line ++ blanks) = (afterKeyword? line).map (· ++ tail) := by
  obtain ⟨more, blankMore, remainder⟩ := exists_splitAttributes_append_blank blank none line
  rw [afterKeyword?, afterKeyword?, remainder]
  rcases dropModifiers_append_blank blankMore [] (splitAttributes none line).2 with
    ⟨tail, blankTail, behind⟩ | ⟨spent, modifier⟩
  · have unbroken : ∀ c ∈ enumKeyword, Text.isBlank c = false := Text.not_isBlank_of_all (by decide)
    exact ⟨tail, blankTail, by rw [behind, isPrefixOf?_append_blank blankTail unbroken]⟩
  · have other : ∀ word ∈ modifiers, enumKeyword.isPrefixOf? word = none := by decide
    exact ⟨[], rfl, by rw [spent, other _ modifier]; rfl⟩

include blank in
theorem ofLine?_append_blank (line : Text) :
    Declaration.ofLine? (line ++ blanks) = Declaration.ofLine? line := by
  obtain ⟨tail, blankTail, behind⟩ := exists_afterKeyword?_append_blank blank line
  unfold Declaration.ofLine?
  rw [behind]
  cases keyword : afterKeyword? line with
  | none => rfl
  | some rest =>
      have written : Text.isBlankText line = false := by
        rw [Bool.eq_false_iff]
        intro nothing
        rw [afterKeyword?_of_isBlankText nothing] at keyword
        contradiction
      rw [Text.indentOf_append_of_written written]
      simp only [Option.map_some, Option.bind_some]
      cases named : Text.isBlankText rest with
      | true =>
          -- Without a name there is no declaration, whatever the blanks are.
          have unnamed : Text.isBlankText (rest ++ tail) = true :=
            Text.isBlankText_append.mpr ⟨named, blankTail⟩
          rw [if_pos (.inr (by rw [Text.dropBlank_eq_nil unnamed]; rfl)),
            if_pos (.inr (by rw [Text.dropBlank_eq_nil named]; rfl))]
      | false =>
          obtain ⟨c, others, shape, -⟩ := Text.exists_dropBlank named
          have longer : Text.dropBlank (rest ++ tail) = Text.dropBlank rest ++ tail := by
            rw [Text.dropBlank_append_of_cons shape, shape, List.cons_append]
          rw [Text.indentOf_append_of_written named, longer, Text.takeWhile_append_blank blankTail,
            Text.dropWhile_append_blank blankTail, Text.head?_dropBlank_append_blank blankTail]

include blank in
theorem ofLine?_blank_append (line : Text) :
    Declaration.ofLine? (blanks ++ line) =
      (Declaration.ofLine? line).map fun declaration =>
        { declaration with indent := blanks ++ declaration.indent } := by
  have keyword : afterKeyword? (blanks ++ line) = afterKeyword? line := by
    rw [afterKeyword?, splitAttributes_append (areAttributes_of_isBlankText blank), afterKeyword?]
  unfold Declaration.ofLine?
  rw [keyword, Text.indentOf_append blank]
  cases afterKeyword? line with
  | none => rfl
  | some rest =>
      simp only [Option.bind_some]
      split <;> rfl

end Blanks

/-- Trimming a line takes nothing from its declaration but the indent. -/
theorem ofLine?_eq_map_strip (line : Text) :
    Declaration.ofLine? line =
      (Declaration.ofLine? (Text.strip line)).map fun declaration =>
        { declaration with indent := Text.indentOf line ++ declaration.indent } := by
  obtain ⟨blanks, blank, whole⟩ := Text.exists_strip_append line
  conv_lhs => rw [whole, ofLine?_append_blank blank,
    ofLine?_blank_append (Text.isBlankText_indentOf line)]

namespace Reading

variable (reading : Reading) (number : Nat)

theorem continueBody_strip (line : Text) :
    reading.continueBody number (Text.strip line) = reading.continueBody number line := by
  simp only [continueBody, BodyLine.classify, Text.strip_strip]

theorem takeLine_strip (line : Text) :
    reading.takeLine number (Text.strip line) = reading.takeLine number line := by
  simp only [takeLine, ofLine?_eq_map_strip line, Text.strip_strip]
  cases Declaration.ofLine? (Text.strip line) with
  | none => exact continueBody_strip _ number line
  | some declaration => rfl

theorem step_strip (line : Text) :
    reading.step number (Text.strip line) = reading.step number line := by
  rw [step, step, Text.strip_strip, takeLine_strip]

theorem run_map_strip (lines : List Text) :
    reading.run number (lines.map Text.strip) = reading.run number lines := by
  induction lines generalizing reading number with
  | nil => rfl
  | cons line rest inductionHypothesis =>
      rw [List.map_cons, run, run, step_strip, inductionHypothesis]

/-- Empty lines are passed over: they have a part in the numbers of reports alone. -/
theorem Follows.run_filter {base own reading : Reading} (follows : base.Follows own reading)
    (grounded : base.Grounded) (number ownNumber : Nat) (lines : List Text) :
    base.Follows (own.run ownNumber (lines.filter (· ≠ []))) (reading.run number lines) := by
  induction lines generalizing own reading number ownNumber with
  | nil => exact follows
  | cons line rest inductionHypothesis =>
      by_cases empty : line = []
      · rw [empty, List.filter_cons_of_neg (by simp), Reading.run, step_nil]
        exact inductionHypothesis follows _ _
      · rw [List.filter_cons_of_pos (by simpa using empty)]
        exact inductionHypothesis (follows.step grounded number ownNumber line) _ _

end Reading

def writtenLines (lines : List Text) : List Text :=
  (lines.map Text.strip).filter (· ≠ [])

theorem declaredIn_writtenLines (lines : List Text) :
    declaredIn (writtenLines lines) = declaredIn lines := by
  -- To follow the reading of no lines is to be the same, but for what is reported.
  have start : Reading.Follows {} {} {} := .ofWith (fun _ _ => rfl) List.suffix_rfl (.start {})
  have follows := start.run_filter (Reading.grounded_ofLines []) 1 1 (lines.map Text.strip)
  rw [Reading.run_map_strip] at follows
  obtain ⟨added, -, declared⟩ := follows.declared
  exact declared.symm

/-- The outline of a document is that of its written lines. -/
theorem outline_writtenLines (lines : List Text) :
    Outline.ofLines (writtenLines lines) = Outline.ofLines lines :=
  congrArg Outline.ofBlocks (declaredIn_writtenLines lines)

end EnumBlocks
