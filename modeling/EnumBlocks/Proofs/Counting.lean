import EnumBlocks.Proofs.Braces
import EnumBlocks.Proofs.CommitLines
import EnumBlocks.Proofs.Printer

/-!
The two ways of counting braces. In lines with at most one brace of each kind and none in a comment
they count the same, so that blocks have the same extent, and what blocks without braces are written
as are such lines again. The one exception is a unit of indentation that begins a comment: the
braces of a block that is added are then part of it.
-/

namespace EnumBlocks

/-- Whether a line has at most one brace of each kind, and none in its comment. -/
structure IsSparse (line : Text) : Prop where
  opensOnce : line.count '{' ≤ 1
  closesOnce : line.count '}' ≤ 1
  comment : ∀ comment ∈ (splitComment line).2, Braceless comment

instance (line : Text) : Decidable (IsSparse line) :=
  decidable_of_iff (line.count '{' ≤ 1 ∧ line.count '}' ≤ 1 ∧
      ∀ comment ∈ (splitComment line).2, Braceless comment)
    ⟨fun ⟨opens, closes, comment⟩ => ⟨opens, closes, comment⟩,
      fun ⟨opens, closes, comment⟩ => ⟨opens, closes, comment⟩⟩

structure Block.IsBraceless (block : Block) : Prop where
  name : Braceless block.name
  entries : ∀ entry ∈ block.entries,
    Braceless entry.name ∧ Braceless entry.value ∧ Braceless entry.comment

instance (block : Block) : Decidable block.IsBraceless :=
  decidable_of_iff (Braceless block.name ∧ ∀ entry ∈ block.entries,
      Braceless entry.name ∧ Braceless entry.value ∧ Braceless entry.comment)
    ⟨fun ⟨name, entries⟩ => ⟨name, entries⟩, fun ⟨name, entries⟩ => ⟨name, entries⟩⟩

namespace IsSparse

theorem ofBraceless {line : Text} (braceless : Braceless line) : IsSparse line where
  opensOnce := by rw [List.count_eq_zero_of_not_mem braceless.1]; exact Nat.zero_le 1
  closesOnce := by rw [List.count_eq_zero_of_not_mem braceless.2]; exact Nat.zero_le 1
  comment := fun _ found => braceless.subset (comment_subset found)

theorem append_braceless {line front rest : Text} (sparse : IsSparse line)
    (isStart : front <+: line) (braceless : Braceless rest) (apart : rest.head? ≠ some '/') :
    IsSparse (front ++ rest) := by
  obtain ⟨back, rfl⟩ := isStart
  have opens := sparse.opensOnce
  have closes := sparse.closesOnce
  rw [List.count_append] at opens closes
  refine ⟨?_, ?_, ?_⟩
  · rw [List.count_append, List.count_eq_zero_of_not_mem braceless.1]
    omega
  · rw [List.count_append, List.count_eq_zero_of_not_mem braceless.2]
    omega
  · intro comment found
    cases begun : (splitComment front).2 with
    | some own =>
        have whole := sparse.comment (own ++ back) (splitCommentFrom_append_of_some begun back)
        rw [splitComment, splitCommentFrom_append_of_some begun rest] at found
        cases found
        exact braceless_append.mpr ⟨(braceless_append.mp whole).1, braceless⟩
    | none =>
        obtain ⟨quoted, escaped, later⟩ := splitCommentFrom_append_of_none begun apart
        rw [splitComment, later] at found
        exact braceless.subset (comment_subset found)

theorem brace {indent : Text} (braceless : Braceless indent)
    (uncommented : commentStart? indent = none) {mark : Char} (isBrace : mark = '{' ∨ mark = '}') :
    IsSparse (indent ++ [mark]) := by
  have begun := commentStart?_eq_none_iff.mp uncommented
  have apart : [mark].head? ≠ some '/' := by
    rcases isBrace with rfl | rfl <;> decide
  refine ⟨?_, ?_, ?_⟩
  · rw [List.count_append, List.count_eq_zero_of_not_mem braceless.1]
    rcases isBrace with rfl | rfl <;> decide
  · rw [List.count_append, List.count_eq_zero_of_not_mem braceless.2]
    rcases isBrace with rfl | rfl <;> decide
  · obtain ⟨quoted, escaped, later⟩ := splitCommentFrom_append_of_none begun apart
    have unended : (splitCommentFrom quoted escaped [mark]).2 = none := by
      simp [splitCommentFrom]
    rw [splitComment, later, unended]
    intro comment impossible
    contradiction

section Counts

variable {line : Text} (sparse : IsSparse line)

include sparse in
theorem opens_eq : Counting.perLine.opens line = Counting.perCharacter.opens line := by
  have counted := count_codeOf '{' (by decide) fun comment found =>
    (sparse.comment comment found).1
  simp only [Counting.opens, openCount, counted, List.count_pos_iff]

include sparse in
theorem delta_eq : Counting.perLine.delta line = Counting.perCharacter.delta line := by
  have opened := count_codeOf '{' (by decide) fun comment found =>
    (sparse.comment comment found).1
  have closed := count_codeOf '}' (by decide) fun comment found =>
    (sparse.comment comment found).2
  have once : ∀ mark, line.count mark ≤ 1 →
      (if mark ∈ line then 1 else 0 : Int) = (line.count mark : Int) := by
    intro mark atMost
    split
    · rename_i membership
      have positive := List.count_pos_iff.mpr membership
      omega
    · rename_i absent
      rw [List.count_eq_zero_of_not_mem absent]
      rfl
  rw [Counting.delta, Counting.delta, netBraces, openCount, closeCount, opened, closed,
    once _ sparse.opensOnce, once _ sparse.closesOnce]

end Counts

end IsSparse

section Span

theorem findIdx?_congr {α : Type} {first second : α → Bool} {values : List α}
    (same : ∀ value ∈ values, first value = second value) :
    values.findIdx? first = values.findIdx? second := by
  induction values with
  | nil => rfl
  | cons value rest inductionHypothesis =>
      rw [List.findIdx?_cons, List.findIdx?_cons, same value List.mem_cons_self,
        inductionHypothesis fun other membership => same other (List.mem_cons_of_mem _ membership)]

variable {lines : List Text} (sparse : ∀ line ∈ lines, IsSparse line)

include sparse in
theorem openingLine?_perLine (start : Nat) :
    openingLine? .perLine start lines = openingLine? .perCharacter start lines := by
  rw [openingLine?, openingLine?,
    findIdx?_congr fun line membership => (sparse line (List.mem_of_mem_drop membership)).opens_eq]

include sparse in
theorem linesToClose?_perLine (depth : Int) :
    linesToClose? .perLine depth lines = linesToClose? .perCharacter depth lines := by
  induction lines generalizing depth with
  | nil => rfl
  | cons line rest inductionHypothesis =>
      rw [linesToClose?, linesToClose?, (sparse line List.mem_cons_self).delta_eq,
        inductionHypothesis fun other membership =>
          sparse other (List.mem_cons_of_mem _ membership)]

include sparse in
theorem closingLine?_perLine (start : Nat) :
    closingLine? .perLine start lines = closingLine? .perCharacter start lines := by
  rw [closingLine?, closingLine?,
    linesToClose?_perLine fun line membership => sparse line (List.mem_of_mem_drop membership)]

include sparse in
/-- In sparse lines a block has the same extent, or is not located for the same reason, whichever
way braces are counted. -/
theorem spanOf_perLine (name : Text) :
    spanOf name lines .perLine = spanOf name lines .perCharacter := by
  simp only [spanOf, openingLine?_perLine sparse, closingLine?_perLine sparse]

end Span

section Written

structure Settings.IsBraceless (settings : Settings) : Prop where
  modifier : Braceless settings.accessModifier
  indentUnit : Braceless settings.indentUnit

instance (settings : Settings) : Decidable settings.IsBraceless :=
  decidable_of_iff (Braceless settings.accessModifier ∧ Braceless settings.indentUnit)
    ⟨fun ⟨modifier, unit⟩ => ⟨modifier, unit⟩, fun ⟨modifier, unit⟩ => ⟨modifier, unit⟩⟩

variable {settings : Settings} (bracelessSettings : settings.IsBraceless) {block : Block}
  (bracelessBlock : block.IsBraceless) {indent : Text} (bracelessIndent : Braceless indent)

include bracelessSettings bracelessIndent in
theorem braceless_header {name attributes : Text} (bracelessName : Braceless name)
    (bracelessAttributes : Braceless attributes) :
    Braceless (headerLine name indent attributes settings) := by
  constructor
  · exact not_mem_headerLine bracelessName.1 bracelessIndent.1 bracelessAttributes.1
      bracelessSettings.modifier.1 (by decide)
  · exact not_mem_headerLine bracelessName.2 bracelessIndent.2 bracelessAttributes.2
      bracelessSettings.modifier.2 (by decide)

include bracelessIndent in
theorem braceless_renderEntry {entry : Entry}
    (braceless : Braceless entry.name ∧ Braceless entry.value ∧ Braceless entry.comment) :
    Braceless (entry.render indent) := by
  obtain ⟨name, value, comment⟩ := braceless
  constructor
  · exact not_mem_render bracelessIndent.1 name.1 value.1 comment.1 (by decide)
  · exact not_mem_render bracelessIndent.2 name.2 value.2 comment.2 (by decide)

include bracelessSettings bracelessBlock bracelessIndent in
theorem isSparse_render (uncommented : commentStart? indent = none) {attributes : Text}
    (header : IsSparse (headerLine block.name indent attributes settings)) :
    ∀ line ∈ block.render indent attributes settings, IsSparse line := by
  have deeper := braceless_append.mpr ⟨bracelessIndent, bracelessSettings.indentUnit⟩
  apply Block.forall_mem_render
  · intro brace isBrace
    exact .brace bracelessIndent uncommented isBrace
  · intro entry present _
    exact .ofBraceless (braceless_renderEntry deeper (bracelessBlock.entries entry present))
  · exact header

include bracelessSettings bracelessBlock in
/-- What a block in sparse lines is replaced by is sparse. The attributes are kept, and a brace or a
comment that begins in them is kept as it was. -/
theorem isSparse_rewritten {declaration : Text} (sparse : IsSparse declaration) :
    ∀ line ∈ block.rewritten declaration settings, IsSparse line := by
  have indent := braceless_of_isBlankText (Text.isBlankText_indentOf declaration)
  apply isSparse_render bracelessSettings bracelessBlock indent (commentStart?_indentOf declaration)
  by_cases bare : attributesOf declaration = []
  · rw [bare]
    exact .ofBraceless (braceless_header bracelessSettings indent bracelessBlock.name braceless_nil)
  · have rest := braceless_header bracelessSettings braceless_nil bracelessBlock.name braceless_nil
    have whole : headerLine block.name (Text.indentOf declaration) (attributesOf declaration)
        settings = Text.indentOf declaration ++ attributesOf declaration ++
          ([' '] ++ headerLine block.name [] [] settings) := by
      simp [headerLine, bare]
    rw [whole]
    exact sparse.append_braceless (indentOf_append_attributesOf declaration)
      (braceless_append.mpr ⟨by decide, rest⟩) (by simp)

include bracelessSettings bracelessBlock in
theorem isSparse_added (uncommented : commentStart? settings.indentUnit = none)
    (lines : List Text) :
    ∀ line ∈ block.render (Splice.appendIndent lines settings) [] settings, IsSparse line := by
  obtain ⟨braceless, plain⟩ : Braceless (Splice.appendIndent lines settings) ∧
      commentStart? (Splice.appendIndent lines settings) = none := by
    apply appendIndent_induction fun indent => Braceless indent ∧ commentStart? indent = none
    · exact ⟨braceless_nil, rfl⟩
    · intro line _
      exact ⟨braceless_of_isBlankText (Text.isBlankText_indentOf line), commentStart?_indentOf line⟩
    · intro line _
      have blank := Text.isBlankText_indentOf line
      exact ⟨braceless_append.mpr ⟨braceless_of_isBlankText blank, bracelessSettings.indentUnit⟩,
        (commentStart?_blank_append blank _).mpr uncommented⟩
  apply isSparse_render bracelessSettings bracelessBlock braceless plain
  exact .ofBraceless (braceless_header bracelessSettings braceless bracelessBlock.name braceless_nil)

end Written

end EnumBlocks
