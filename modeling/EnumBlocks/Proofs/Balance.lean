import EnumBlocks.Proofs.BlockText
import EnumBlocks.Proofs.Counting
import EnumBlocks.Proofs.Splice

/-!
What rewriting a block does to the braces of its document. A block is rewritten by whole lines, so
that the braces which its lines hold beyond those of the block are lost. These are closing braces
only: some between the declaration and the opening brace, and some behind the closing brace on the
last line. Where there are none, the document keeps its balance.
-/

namespace EnumBlocks

/-- Whether the lines of a block hold no braces but its own: none is closed before the block opens
one, and as many are closed from there on as are opened. -/
@[mk_iff]
structure Span.IsTight (span : Span) (lines : List Text) : Prop where
  before : ∀ line ∈ (lines.take span.opening).drop span.head, closeCount line = 0
  level : Counting.perCharacter.total ((lines.take (span.closing + 1)).drop span.opening) = 0

instance (span : Span) (lines : List Text) : Decidable (span.IsTight lines) :=
  decidable_of_iff' _ (span.isTight_iff lines)

theorem total_of_unopened {lines : List Text} (unopened : ∀ line ∈ lines, openCount line = 0) :
    Counting.perCharacter.total lines ≤ 0 ∧
      (Counting.perCharacter.total lines = 0 ↔ ∀ line ∈ lines, closeCount line = 0) := by
  induction lines with
  | nil => simp
  | cons line rest inductionHypothesis =>
      rw [List.forall_mem_cons] at unopened
      obtain ⟨shallow, level⟩ := inductionHypothesis unopened.2
      have first : Counting.perCharacter.delta line = -closeCount line := by
        rw [Counting.delta, netBraces, unopened.1]
        omega
      rw [total_cons, first, List.forall_mem_cons, ← level]
      omega

/-- The lines of a block never open more braces than they close. -/
theorem total_extract {name : Text} {lines : List Text} {span : Span}
    (located : spanOf name lines .perCharacter = .ok span) :
    Counting.perCharacter.total (span.extract lines) ≤ 0 ∧
      (Counting.perCharacter.total (span.extract lines) = 0 ↔ span.IsTight lines) := by
  have bounds := spanOf_bounds located
  obtain ⟨unopened, -, closed⟩ := (isExtent_extract located).parts
  have shallow := total_take_le_of_linesToClose? closed
  obtain ⟨beforeShallow, beforeLevel⟩ := total_of_unopened unopened
  have before : (span.extract lines).take (span.opening - span.head) =
      (lines.take span.opening).drop span.head := by
    rw [Span.extract, List.take_drop, List.take_take]
    congr 2
    omega
  have behind : (span.extract lines).drop (span.opening - span.head) =
      (lines.take (span.closing + 1)).drop span.opening := by
    rw [Span.extract, List.drop_drop]
    congr 1
    omega
  have parts := total_append .perCharacter
    ((span.extract lines).take (span.opening - span.head))
    ((span.extract lines).drop (span.opening - span.head))
  rw [List.take_append_drop] at parts
  rw [List.take_of_length_le (by omega)] at shallow
  rw [before] at beforeShallow beforeLevel parts
  rw [behind] at shallow parts
  have tight : span.IsTight lines ↔
      Counting.perCharacter.total ((lines.take span.opening).drop span.head) = 0 ∧
        Counting.perCharacter.total ((lines.take (span.closing + 1)).drop span.opening) = 0 := by
    rw [beforeLevel]
    exact span.isTight_iff lines
  rw [tight, parts]
  omega

theorem total_dropBlankEnd (lines : List Text) :
    Counting.perCharacter.total (Splice.dropBlankEnd lines) =
      Counting.perCharacter.total lines := by
  unfold Splice.dropBlankEnd
  split
  · rename_i line last
    split
    · rename_i blank
      have level := delta_of_braceless .perCharacter (braceless_of_isBlankText blank)
      have whole := List.dropLast_append_getLast? line last
      conv_rhs => rw [← whole, total_append, total_cons, level, total_nil]
      omega
    · rfl
  · rfl

theorem total_render {block : Block} {indent : Text} (attributes : Text) {settings : Settings}
    (blank : Text.isBlankText indent = true) (unit : Braceless settings.indentUnit)
    (entries : ∀ entry ∈ block.entries, entry.isWritten = true →
      Braceless entry.name ∧ Braceless entry.value ∧ Braceless entry.comment) :
    Counting.perCharacter.total (block.render indent attributes settings) =
      netBraces (headerLine block.name indent attributes settings) := by
  have deeper := braceless_append.mpr ⟨braceless_of_isBlankText blank, unit⟩
  have level : ∀ line ∈ block.entryLines indent settings, Counting.perCharacter.delta line = 0 := by
    intro line membership
    obtain ⟨entry, kept, rfl⟩ := List.mem_map.mp membership
    obtain ⟨present, written⟩ := List.mem_filter.mp kept
    exact delta_of_braceless _ (braceless_renderEntry deeper (entries entry present written))
  rw [Block.render_eq_openLines_concat, Block.openLines, total_append, total_cons, total_cons,
    total_cons, total_nil, total_of_level level, delta_openingBrace blank, delta_closingBrace blank,
    Counting.delta]
  omega

section Rewritten

variable {name : Text} {lines : List Text} {settings : Settings} {span : Span}
  (located : spanOf name lines settings.counting = .ok span)

include located in
/-- The lines in front of a block and those behind it lack the braces of its own lines. -/
theorem total_outside :
    Counting.perCharacter.total (lines.take span.head) +
        Counting.perCharacter.total (lines.drop (span.closing + 1)) =
      Counting.perCharacter.total lines - Counting.perCharacter.total (span.extract lines) := by
  have whole := congrArg Counting.perCharacter.total (take_append_extract_append_drop located)
  rw [total_append, total_append] at whole
  omega

include located in
/-- Whether rewriting a block leaves the braces of its document in balance is decided by the lines of
the block. They are replaced or removed as a whole, so that the closing braces among them that belong
to what surrounds the block are lost, and nothing else is. -/
theorem balance_kept_iff_isTight (counting : settings.counting = .perCharacter)
    (braceless : settings.IsBraceless) :
    (∃ splice, Splice.remove name lines settings = .ok splice ∧
      Counting.perCharacter.total lines ≤ Counting.perCharacter.total splice.lines ∧
      (Counting.perCharacter.total splice.lines = Counting.perCharacter.total lines ↔
        span.IsTight lines)) ∧
    ∀ block : Block, block.name = name →
      (∀ entry ∈ block.entries, entry.isWritten = true →
        Braceless entry.name ∧ Braceless entry.value ∧ Braceless entry.comment) →
      ∃ splice, Splice.replace block lines settings = .ok splice ∧
        Counting.perCharacter.total splice.lines =
          Counting.perCharacter.total lines - Counting.perCharacter.total (span.extract lines) +
            netBraces (headerLine name (Text.indentOf (lines.getD span.head []))
              (attributesOf (lines.getD span.head [])) settings) ∧
        (Braceless name → Braceless (attributesOf (lines.getD span.head [])) →
          Counting.perCharacter.total lines ≤ Counting.perCharacter.total splice.lines ∧
          (Counting.perCharacter.total splice.lines = Counting.perCharacter.total lines ↔
            span.IsTight lines)) := by
  have outside := total_outside located
  obtain ⟨shallow, tight⟩ := total_extract (counting ▸ located)
  constructor
  · refine ⟨_, remove_eq located, ?_⟩
    rw [total_append, total_dropBlankEnd, outside, ← tight]
    omega
  · rintro block rfl entries
    have blank := Text.isBlankText_indentOf (lines.getD span.head [])
    have rendered := total_render (attributesOf (lines.getD span.head [])) blank
      braceless.indentUnit entries
    refine ⟨_, replace_eq located, ?_, ?_⟩
    · rw [total_append, total_append, Block.rewritten, rendered]
      omega
    · intro bracelessName bracelessAttributes
      have header := braceless_header braceless (braceless_of_isBlankText blank) bracelessName
        bracelessAttributes
      rw [total_append, total_append, Block.rewritten, rendered,
        netBraces_eq_zero (braceless_codeOf header), ← tight]
      omega

end Rewritten

def tightLines : List Text :=
  [['c', 'l', 'a', 's', 's', ' ', 'C', ' ', '{'],
   ['e', 'n', 'u', 'm', ' ', 'A', ' ', '{', ' ', 'X', ' ', '}'], ['}']]

theorem balance_kept_iff_isTight_tightLines :
    spanOf ['A'] tightLines .perCharacter = .ok ⟨1, 1, 1⟩ ∧
      Counting.perCharacter.total tightLines = 0 ∧
      ∃ removed replaced : Splice, Splice.remove ['A'] tightLines {} = .ok removed ∧
        Counting.perCharacter.total removed.lines = 0 ∧
        Splice.replace ⟨['A'], [⟨['Y'], [], []⟩]⟩ tightLines {} = .ok replaced ∧
        Counting.perCharacter.total replaced.lines = 0 := by
  have located : spanOf ['A'] tightLines ({} : Settings).counting = .ok ⟨1, 1, 1⟩ := rfl
  have tight : (⟨1, 1, 1⟩ : Span).IsTight tightLines := by decide
  obtain ⟨⟨removed, isRemoved, -, keptRemoved⟩, replacing⟩ :=
    balance_kept_iff_isTight located rfl (by decide)
  obtain ⟨replaced, isReplaced, -, rest⟩ :=
    replacing ⟨['A'], [⟨['Y'], [], []⟩]⟩ rfl (by decide)
  obtain ⟨-, keptReplaced⟩ := rest (by decide) (by decide)
  exact ⟨located, by decide, removed, replaced, isRemoved, keptRemoved.mpr tight, isReplaced,
    keptReplaced.mpr tight⟩

def sharedLines : List Text :=
  [['c', 'l', 'a', 's', 's', ' ', 'C', ' ', '{'],
   ['e', 'n', 'u', 'm', ' ', 'A', ' ', '{', ' ', 'X', ' ', '}', ' ', '}']]

/-- The closing brace of a class is lost with a block that ends on the same line. -/
theorem balance_lost_sharedLines :
    ∃ removed replaced : Splice, Splice.remove ['A'] sharedLines {} = .ok removed ∧
      Splice.replace ⟨['A'], [⟨['X'], [], []⟩]⟩ sharedLines {} = .ok replaced ∧
      Counting.perCharacter.total sharedLines = 0 ∧
      Counting.perCharacter.total removed.lines = 1 ∧
      Counting.perCharacter.total replaced.lines = 1 :=
  ⟨_, _, rfl, rfl, by decide, by decide, by decide⟩

end EnumBlocks
