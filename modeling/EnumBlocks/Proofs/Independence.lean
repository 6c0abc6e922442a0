import EnumBlocks.Proofs.Splice

/-!
Replacing a block leaves the other blocks where they can be found. The lines around the block stay,
a block before it keeps its place, and a block after it is shifted by the difference in length.
-/

namespace EnumBlocks

/-- Whether one span is another, moved down by `offset` lines. -/
def Span.MovedBy (offset : Int) (span moved : Span) : Prop :=
  (moved.head : Int) = span.head + offset ∧
    (moved.opening : Int) = span.opening + offset ∧
    (moved.closing : Int) = span.closing + offset

section Written

variable {block : Block} {settings : Settings} (readable : settings.Readable)
  (named : IsName block.name)
  (entriesNamed : ∀ entry ∈ block.entries, entry.isWritten = true → IsName entry.name)
  {other : Text} (otherNamed : IsName other) (different : other ≠ block.name)

include readable named entriesNamed otherNamed different in
theorem undeclared_render {indent attributes : Text} (blank : Text.isBlankText indent = true)
    (list : IsAttributeList attributes) :
    Undeclared other (block.render indent attributes settings) := by
  intro line membership
  rw [Bool.eq_false_iff]
  intro declared
  exact different ((declares_of_mem_render readable blank entriesNamed list named otherNamed).mp
    ⟨line, membership, declared⟩)

include readable named entriesNamed otherNamed different in
theorem undeclared_rewritten (declaration : Text) :
    Undeclared other (block.rewritten declaration settings) :=
  undeclared_render readable named entriesNamed otherNamed different
    (Text.isBlankText_indentOf declaration) (isAttributeList_attributesOf declaration)

end Written

/-- Replacing a block does not interfere with a block apart from it. -/
theorem replace_independent {settings : Settings} (readable : settings.Readable)
    {block : Block} (named : IsName block.name)
    (entriesNamed : ∀ entry ∈ block.entries, entry.isWritten = true → IsName entry.name)
    {other : Text} (otherNamed : IsName other) (different : other ≠ block.name)
    {lines : List Text} {span otherSpan : Span}
    (located : spanOf block.name lines settings.counting = .ok span)
    (otherLocated : spanOf other lines settings.counting = .ok otherSpan)
    (apart : span.Apart otherSpan) :
    ∃ splice written moved,
      Splice.replace block lines settings = .ok splice ∧
      splice.lines = lines.take span.head ++ written ++ lines.drop (span.closing + 1) ∧
      spanOf other splice.lines settings.counting = .ok moved ∧
      (otherSpan.closing < span.head → moved = otherSpan) ∧
      (span.closing < otherSpan.head →
        otherSpan.MovedBy (written.length - span.size) moved) ∧
      moved.extract splice.lines = otherSpan.extract lines := by
  let written := block.rewritten (lines.getD span.head []) settings
  have bounds := spanOf_bounds located
  have otherBounds := spanOf_bounds otherLocated
  rcases apart with later | earlier
  · obtain ⟨own, ownLocated, equality⟩ := spanOf_drop otherLocated (Nat.succ_le_of_lt later)
    have absent : Undeclared other (lines.take span.head ++ written) := by
      refine undeclared_append.mpr ⟨?_, ?_⟩
      · intro line membership
        exact undeclared_take_head otherLocated line
          (List.take_subset_take_left lines (by omega) membership)
      · exact undeclared_rewritten readable named entriesNamed otherNamed different _
    refine ⟨_, written, own.shift (lines.take span.head ++ written).length,
      replace_eq located, rfl, ?_, ?_, ?_, ?_⟩
    · exact (spanOf_append_left absent _ _).mpr ⟨own, ownLocated, rfl⟩
    · intro impossible
      omega
    · intro _
      have front := length_take_head located
      rw [equality]
      simp only [Span.MovedBy, Span.shift, List.length_append, front, Span.size]
      omega
    · have length : (lines.take (span.closing + 1)).length = span.closing + 1 := by
        rw [List.length_take]
        omega
      rw [extract_shift own rfl, equality]
      conv_rhs => rw [← List.take_append_drop (span.closing + 1) lines, extract_shift own length]
  · refine ⟨_, written, otherSpan, replace_eq located, rfl, ?_, fun _ => rfl, ?_, ?_⟩
    · rw [List.append_assoc]
      exact spanOf_take_append otherLocated earlier _
    · intro impossible
      omega
    · rw [List.append_assoc]
      exact extract_take_append earlier (by omega) _

def twoBlocks : List Text :=
  [['e', 'n', 'u', 'm', ' ', 'A', '{', '}'], ['e', 'n', 'u', 'm', ' ', 'B', '{', '}']]

theorem replace_independent_twoBlocks :
    ∃ splice written moved,
      Splice.replace ⟨['A'], [⟨['X'], [], []⟩]⟩ twoBlocks {} = .ok splice ∧
      splice.lines = written ++ twoBlocks.drop 1 ∧
      spanOf ['B'] splice.lines .perCharacter = .ok moved ∧
      Span.MovedBy (written.length - 1) ⟨1, 1, 1⟩ moved := by
  have located : spanOf ['A'] twoBlocks .perCharacter = .ok ⟨0, 0, 0⟩ := rfl
  have otherLocated : spanOf ['B'] twoBlocks .perCharacter = .ok ⟨1, 1, 1⟩ := rfl
  have named : IsName (Block.mk ['A'] [⟨['X'], [], []⟩]).name := by decide
  have apart : Span.Apart ⟨0, 0, 0⟩ ⟨1, 1, 1⟩ := .inl (by decide)
  rcases replace_independent Settings.readable_default named (by decide) (by decide) (by decide)
    located otherLocated apart with
    ⟨splice, written, moved, replaced, lines, found, -, shifted, -⟩
  exact ⟨splice, written, moved, replaced, lines, found, shifted (by decide)⟩

end EnumBlocks
