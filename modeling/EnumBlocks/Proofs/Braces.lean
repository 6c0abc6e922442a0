import EnumBlocks.Brace
import EnumBlocks.Proofs.Text.Trimming

/-!
The code of a line under trimming and before a comment. Blanks at either end of a line never matter
to its braces, and neither does anything after two slashes that no quotation mark precedes. Of a
line that goes on, the comment goes on too if one has begun.
-/

namespace EnumBlocks

def Braceless (text : Text) : Prop :=
  '{' ∉ text ∧ '}' ∉ text

instance (text : Text) : Decidable (Braceless text) :=
  inferInstanceAs (Decidable ('{' ∉ text ∧ '}' ∉ text))

theorem braceless_nil : Braceless [] := by
  decide

theorem braceless_append {first second : Text} :
    Braceless (first ++ second) ↔ Braceless first ∧ Braceless second := by
  simp only [Braceless, List.mem_append, not_or]
  constructor
  · rintro ⟨⟨firstOpens, secondOpens⟩, firstCloses, secondCloses⟩
    exact ⟨⟨firstOpens, firstCloses⟩, secondOpens, secondCloses⟩
  · rintro ⟨⟨firstOpens, firstCloses⟩, secondOpens, secondCloses⟩
    exact ⟨⟨firstOpens, secondOpens⟩, firstCloses, secondCloses⟩

theorem Braceless.subset {text part : Text} (braceless : Braceless text) (within : part ⊆ text) :
    Braceless part :=
  ⟨fun membership => braceless.1 (within membership),
    fun membership => braceless.2 (within membership)⟩

theorem ne_of_isBlank {c mark : Char} (blank : Text.isBlank c = true)
    (plain : Text.isBlank mark = false) : c ≠ mark := by
  rintro rfl
  rw [blank] at plain
  contradiction

theorem braceless_of_isBlankText {text : Text} (blank : Text.isBlankText text = true) :
    Braceless text := by
  constructor <;> exact Text.not_mem_of_isBlankText blank (by decide)

theorem braceless_of_isWord {text : Text} (word : ∀ c ∈ text, Text.isWord c = true) :
    Braceless text := by
  constructor <;> intro membership <;>
    exact absurd (word _ membership) (by decide)

theorem splitCommentFrom_blank_cons {c : Char} (blank : Text.isBlank c = true)
    (quoted escaped : Bool) (rest : Text) :
    splitCommentFrom quoted escaped (c :: rest) =
      (c :: (splitCommentFrom quoted false rest).1, (splitCommentFrom quoted false rest).2) := by
  have unquoted : c ≠ quotationMark := ne_of_isBlank blank (by decide)
  have noSlash : c ≠ '/' := ne_of_isBlank blank (by decide)
  have noBackslash : c ≠ '\\' := ne_of_isBlank blank (by decide)
  have unescaped : (c == '\\') = false := by simpa using noBackslash
  rw [splitCommentFrom, if_neg (fun mark => unquoted mark.1),
    if_neg (fun slash => noSlash slash.1), unescaped]

theorem codeOf_blank_append {indent : Text} (blank : Text.isBlankText indent = true)
    (text : Text) : codeOf (indent ++ text) = indent ++ codeOf text := by
  induction indent with
  | nil => rfl
  | cons c rest inductionHypothesis =>
      have parts : Text.isBlank c = true ∧ Text.isBlankText rest = true := by
        simpa [Text.isBlankText] using blank
      have remaining := inductionHypothesis parts.2
      simp only [codeOf, splitComment, List.cons_append] at remaining ⊢
      rw [splitCommentFrom_blank_cons parts.1, remaining]

theorem splitCommentFrom_plain {text : Text} (unquoted : quotationMark ∉ text)
    (slashless : '/' ∉ text) (quoted escaped : Bool) :
    splitCommentFrom quoted escaped text = (text, none) := by
  induction text generalizing quoted escaped with
  | nil => rfl
  | cons c rest inductionHypothesis =>
      simp only [List.mem_cons, not_or] at unquoted slashless
      rw [splitCommentFrom, if_neg (fun mark => unquoted.1 mark.1.symm),
        if_neg (fun slash => slashless.1 slash.1.symm),
        inductionHypothesis unquoted.2 slashless.2]

theorem codeOf_eq_self {text : Text} (unquoted : quotationMark ∉ text) (slashless : '/' ∉ text) :
    codeOf text = text := by
  rw [codeOf, splitComment, splitCommentFrom_plain unquoted slashless]

theorem head?_append_blank {blanks : Text} (blank : Text.isBlankText blanks = true)
    (rest : Text) : (rest ++ blanks).head? = some '/' ↔ rest.head? = some '/' := by
  cases rest with
  | cons c tail => simp
  | nil =>
      cases blanks with
      | nil => simp
      | cons c tail =>
          have plain : c ≠ '/' :=
            ne_of_isBlank (Text.isBlankText_cons.mp blank).1 (by decide)
          simp [plain]

theorem splitCommentFrom_append_blank {blanks : Text} (blank : Text.isBlankText blanks = true)
    (quoted escaped : Bool) (text : Text) :
    ∃ trailing, Text.isBlankText trailing = true ∧
      (splitCommentFrom quoted escaped (text ++ blanks)).1 =
        (splitCommentFrom quoted escaped text).1 ++ trailing := by
  induction text generalizing quoted escaped with
  | nil =>
      have unquoted : quotationMark ∉ blanks := Text.not_mem_of_isBlankText blank (by decide)
      have slashless : '/' ∉ blanks := Text.not_mem_of_isBlankText blank (by decide)
      refine ⟨blanks, blank, ?_⟩
      rw [List.nil_append, splitCommentFrom_plain unquoted slashless]
      rfl
  | cons c rest inductionHypothesis =>
      simp only [List.cons_append, splitCommentFrom, head?_append_blank blank]
      split
      · obtain ⟨trailing, trailingBlank, equality⟩ := inductionHypothesis (!quoted) false
        exact ⟨trailing, trailingBlank, by rw [equality]; rfl⟩
      · split
        · exact ⟨[], rfl, rfl⟩
        · obtain ⟨trailing, trailingBlank, equality⟩ := inductionHypothesis quoted (c == '\\')
          exact ⟨trailing, trailingBlank, by rw [equality]; rfl⟩

theorem exists_codeOf_strip (line : Text) :
    ∃ trailing, Text.isBlankText trailing = true ∧
      codeOf line = Text.indentOf line ++ codeOf (Text.strip line) ++ trailing := by
  obtain ⟨blanks, blank, shape⟩ := Text.exists_strip_append line
  obtain ⟨trailing, trailingBlank, equality⟩ :=
    splitCommentFrom_append_blank blank false false (Text.strip line)
  refine ⟨trailing, trailingBlank, ?_⟩
  conv_lhs => rw [shape, List.append_assoc,
    codeOf_blank_append (Text.isBlankText_indentOf line)]
  rw [List.append_assoc]
  exact congrArg _ equality

theorem count_codeOf_strip {mark : Char} (plain : Text.isBlank mark = false) (line : Text) :
    (codeOf (Text.strip line)).count mark = (codeOf line).count mark := by
  obtain ⟨trailing, trailingBlank, equality⟩ := exists_codeOf_strip line
  have none : ∀ {blanks : Text}, Text.isBlankText blanks = true → blanks.count mark = 0 := by
    intro blanks blank
    exact List.count_eq_zero_of_not_mem (Text.not_mem_of_isBlankText blank plain)
  rw [equality, List.count_append, List.count_append, none trailingBlank,
    none (Text.isBlankText_indentOf line)]
  simp

@[simp]
theorem openCount_strip (line : Text) : openCount (Text.strip line) = openCount line :=
  count_codeOf_strip (by decide) line

@[simp]
theorem closeCount_strip (line : Text) : closeCount (Text.strip line) = closeCount line :=
  count_codeOf_strip (by decide) line

@[simp]
theorem netBraces_strip (line : Text) : netBraces (Text.strip line) = netBraces line := by
  rw [netBraces, netBraces, openCount_strip, closeCount_strip]

theorem closeCount_pos_iff {line : Text} : 0 < closeCount line ↔ '}' ∈ codeOf line :=
  List.count_pos_iff

theorem codeOf_isPrefix (line : Text) : codeOf line <+: line := by
  have whole := joinComment_splitComment line
  unfold codeOf
  cases parts : splitComment line with
  | mk code comment =>
      rw [parts] at whole
      cases comment with
      | none => exact ⟨[], by simpa [joinComment] using whole⟩
      | some comment => exact ⟨'/' :: '/' :: comment, whole⟩

theorem splitCommentFrom_unquoted {code : Text} (unquoted : quotationMark ∉ code)
    (escaped : Bool) (comment : Text) :
    (splitCommentFrom false escaped (code ++ '/' :: '/' :: comment)).1 <+: code := by
  induction code generalizing escaped with
  | nil => simp [splitCommentFrom, quotationMark]
  | cons c rest inductionHypothesis =>
      simp only [List.mem_cons, not_or] at unquoted
      rw [List.cons_append, splitCommentFrom, if_neg (fun mark => unquoted.1 mark.1.symm)]
      split
      · exact List.nil_prefix
      · exact List.cons_prefix_cons.mpr ⟨rfl, inductionHypothesis unquoted.2 _⟩

theorem codeOf_isPrefix_of_unquoted {code : Text} (unquoted : quotationMark ∉ code)
    (comment : Text) :
    codeOf (code ++ '/' :: '/' :: comment) <+: code :=
  splitCommentFrom_unquoted unquoted false comment

theorem openCount_eq_zero {line : Text} (braceless : Braceless (codeOf line)) :
    openCount line = 0 :=
  List.count_eq_zero_of_not_mem braceless.1

theorem netBraces_eq_zero {line : Text} (braceless : Braceless (codeOf line)) :
    netBraces line = 0 := by
  have closes : closeCount line = 0 := List.count_eq_zero_of_not_mem braceless.2
  rw [netBraces, openCount_eq_zero braceless, closes]
  rfl

theorem braceless_codeOf {line : Text} (braceless : Braceless line) : Braceless (codeOf line) :=
  braceless.subset (codeOf_isPrefix line).subset

section Counting

variable (counting : Counting) {line : Text} (braceless : Braceless line)

include braceless in
theorem opens_of_braceless : counting.opens line = false := by
  cases counting with
  | perLine => simp [Counting.opens, braceless.1]
  | perCharacter => simp [Counting.opens, openCount_eq_zero (braceless_codeOf braceless)]

include braceless in
theorem delta_of_braceless : counting.delta line = 0 := by
  cases counting with
  | perLine => simp [Counting.delta, braceless.1, braceless.2]
  | perCharacter => exact netBraces_eq_zero (braceless_codeOf braceless)

end Counting

theorem comment_subset {line comment : Text} {quoted escaped : Bool}
    (found : (splitCommentFrom quoted escaped line).2 = some comment) : comment ⊆ line := by
  have whole := joinComment_splitCommentFrom quoted escaped line
  intro c membership
  rw [← whole]
  cases parts : splitCommentFrom quoted escaped line with
  | mk code rest =>
      rw [parts] at found
      cases found
      simp [joinComment, membership]

theorem count_codeOf {line : Text} (mark : Char) (slashless : mark ≠ '/')
    (absent : ∀ comment ∈ (splitComment line).2, mark ∉ comment) :
    (codeOf line).count mark = line.count mark := by
  conv_rhs => rw [← joinComment_splitComment line]
  unfold codeOf
  cases parts : splitComment line with
  | mk code rest =>
      cases rest with
      | none => rfl
      | some comment =>
          have none : comment.count mark = 0 :=
            List.count_eq_zero_of_not_mem (absent comment (by rw [parts]; rfl))
          simp [joinComment, none, Ne.symm slashless]

theorem splitCommentFrom_append_of_some {text comment : Text} {quoted escaped : Bool}
    (found : (splitCommentFrom quoted escaped text).2 = some comment) (rest : Text) :
    (splitCommentFrom quoted escaped (text ++ rest)).2 = some (comment ++ rest) := by
  induction text generalizing quoted escaped with
  | nil => contradiction
  | cons c tail inductionHypothesis =>
      rw [splitCommentFrom] at found
      rw [List.cons_append, splitCommentFrom]
      split at found
      · rename_i mark
        rw [if_pos mark]
        exact inductionHypothesis found
      · rename_i unmarked
        rw [if_neg unmarked]
        cases tail with
        | nil => simp [splitCommentFrom] at found
        | cons next others =>
            rw [List.cons_append, List.head?_cons]
            rw [List.head?_cons] at found
            split at found
            · rename_i slash
              rw [if_pos slash]
              cases found
              rfl
            · rename_i noSlash
              rw [if_neg noSlash]
              exact inductionHypothesis found

/-- Where no comment has begun, what follows decides whether one does, unless both slashes of its
mark come together from either side. -/
theorem splitCommentFrom_append_of_none {text rest : Text} {quoted escaped : Bool}
    (none : (splitCommentFrom quoted escaped text).2 = none) (apart : rest.head? ≠ some '/') :
    ∃ laterQuoted laterEscaped, (splitCommentFrom quoted escaped (text ++ rest)).2 =
      (splitCommentFrom laterQuoted laterEscaped rest).2 := by
  induction text generalizing quoted escaped with
  | nil => exact ⟨quoted, escaped, rfl⟩
  | cons c tail inductionHypothesis =>
      have second : (tail ++ rest).head? = some '/' ↔ tail.head? = some '/' := by
        cases tail with
        | nil => simpa using apart
        | cons next others => simp
      rw [splitCommentFrom] at none
      simp only [List.cons_append, splitCommentFrom, second]
      split at none
      · rename_i mark
        rw [if_pos mark]
        exact inductionHypothesis none
      · rename_i unmarked
        rw [if_neg unmarked]
        split at none
        · contradiction
        · rename_i noSlash
          rw [if_neg noSlash]
          exact inductionHypothesis none

theorem commentStart?_eq_none_iff {line : Text} :
    commentStart? line = none ↔ (splitComment line).2 = none :=
  Option.map_eq_none_iff

theorem commentStart?_blank_append {blanks : Text} (blank : Text.isBlankText blanks = true)
    (text : Text) : commentStart? (blanks ++ text) = none ↔ commentStart? text = none := by
  rw [commentStart?_eq_none_iff, commentStart?_eq_none_iff]
  induction blanks with
  | nil => exact Iff.rfl
  | cons c rest inductionHypothesis =>
      rw [Text.isBlankText_cons] at blank
      rw [List.cons_append, splitComment, splitCommentFrom_blank_cons blank.1]
      exact inductionHypothesis blank.2

theorem commentStart?_indentOf (line : Text) : commentStart? (Text.indentOf line) = none := by
  have plain := (commentStart?_blank_append (Text.isBlankText_indentOf line) []).mpr rfl
  rwa [List.append_nil] at plain

end EnumBlocks
