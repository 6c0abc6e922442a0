import EnumBlocks.Proofs.Layout
import EnumBlocks.Proofs.Removal
import EnumBlocks.Proofs.Splice

/-!
Removing, replacing and adding a block in a document in which every block stands apart. It stays
such a document, and its blocks change as they should.
-/

namespace EnumBlocks

theorem isBlankText_appendIndent {settings : Settings} (readable : settings.Readable)
    (lines : List Text) : Text.isBlankText (Splice.appendIndent lines settings) = true :=
  appendIndent_induction (Text.isBlankText · = true) rfl
    (fun line _ => Text.isBlankText_indentOf line)
    fun line _ => isBlankText_entryIndent readable (Text.isBlankText_indentOf line)

theorem isExtent_added {block : Block} {settings : Settings} (readable : settings.Readable)
    (counting : settings.counting = .perCharacter) (named : IsName block.name)
    (flat : ∀ entry ∈ block.entries, entry.isWritten = true → entry.Flat) (lines : List Text) :
    IsExtent block.name settings.counting
      (block.render (Splice.appendIndent lines settings) [] settings) 1 := by
  rw [counting]
  exact isExtent_render readable (isBlankText_appendIndent readable lines) named flat
    isAttributeList_nil braceless_nil

namespace LaidOut

variable {before after : List Block} {old : Block} {lines : List Text} {settings : Settings}

theorem dropBlankEnd {blocks : List Block} (laidOut : LaidOut blocks lines) :
    LaidOut blocks (Splice.dropBlankEnd lines) := by
  induction laidOut with
  | nil => exact .nil
  | @line blocks lines line plain rest inductionHypothesis =>
      by_cases none : lines = []
      · subst none
        unfold Splice.dropBlankEnd
        simp only [List.getLast?_singleton, List.dropLast_singleton]
        split
        · exact rest
        · exact .line plain rest
      · rw [← List.singleton_append, dropBlankEnd_append _ none]
        exact .line plain inductionHypothesis
  | @block blocks lines block body text fresh rest inductionHypothesis =>
      by_cases none : lines = []
      · subst none
        rcases text.extent with ⟨opening, extent⟩
        rcases extent.not_isBlankText_getLast with ⟨last, found, mark⟩
        have kept : Splice.dropBlankEnd (body ++ []) = body ++ [] := by
          rw [List.append_nil, Splice.dropBlankEnd, found]
          simp [mark]
        rw [kept]
        exact .block text fresh rest
      · rw [dropBlankEnd_append _ none]
        exact .block text fresh inductionHypothesis

section Place

variable (laidOut : LaidOut (before ++ old :: after) lines)

include laidOut in
theorem apart : (∀ block ∈ before, block.name ∉ after.map Block.name) ∧
    old.name ∉ before.map Block.name ∧ old.name ∉ after.map Block.name := by
  have distinct := laidOut.distinct
  rw [List.map_append, List.nodup_append, List.map_cons, List.nodup_cons] at distinct
  rcases distinct with ⟨-, ⟨fresh, -⟩, disjoint⟩
  refine ⟨?_, ?_, fresh⟩
  · intro block membership later
    exact disjoint _ (List.mem_map_of_mem membership) _ (List.mem_cons_of_mem _ later) rfl
  · intro earlier
    exact disjoint _ earlier _ (by simp) rfl

include laidOut in
/-- Where a block is removed, the others are left. -/
theorem remove (counting : settings.counting = .perCharacter) :
    ∃ splice, Splice.remove old.name lines settings = .ok splice ∧
      LaidOut (before ++ after) splice.lines := by
  rcases laidOut.apart with ⟨disjoint, absent, -⟩
  obtain ⟨front, body, back, rfl, first, text, last⟩ := laidOut.exists_split rfl
  rcases text.extent with ⟨opening, extent⟩
  rw [← counting] at extent
  exact ⟨_, remove_surrounded extent (first.undeclared text.named absent) back,
    first.dropBlankEnd.append last disjoint⟩

include laidOut in
/-- Where a block is replaced, the new one is in its place, as it is read back. -/
theorem replace (readable : settings.Readable) (counting : settings.counting = .perCharacter)
    {block : Block} (plain : block.Plain) (same : block.name = old.name) :
    ∃ splice, Splice.replace block lines settings = .ok splice ∧
      LaidOut (before ++ block.readBack :: after) splice.lines := by
  rcases laidOut.apart with ⟨disjoint, absent, fresh⟩
  obtain ⟨front, body, back, rfl, first, text, last⟩ := laidOut.exists_split rfl
  rcases text.extent with ⟨opening, extent⟩
  rw [← counting] at extent
  have written := isBlockText_render readable (Text.isBlankText_indentOf (body.headD [])) plain
    (isAttributeList_attributesOf (body.headD [])) text.bracelessAttributes
  refine ⟨_, replace_surrounded extent (first.undeclared text.named absent) back same, ?_⟩
  refine first.append (.block written ?_ last) ?_
  · rw [Block.readBack, same]
    exact fresh
  · intro earlier membership
    rw [List.map_cons, List.mem_cons, not_or]
    refine ⟨?_, disjoint earlier membership⟩
    intro equality
    rw [Block.readBack, same] at equality
    exact absent (equality ▸ List.mem_map_of_mem membership)

end Place

/-- A block that is added comes last, as it is read back. -/
theorem insert {blocks : List Block} (laidOut : LaidOut blocks lines)
    (readable : settings.Readable) {block : Block} (plain : block.Plain)
    (absent : block.name ∉ blocks.map Block.name) :
    ∃ splice, Splice.append block lines settings = .ok splice ∧
      LaidOut (blocks ++ [block.readBack]) splice.lines := by
  have appended := @append_eq block lines settings (laidOut.undeclared plain.named absent)
  have written := isBlockText_render readable (isBlankText_appendIndent readable lines) plain
    isAttributeList_nil braceless_nil
  have added : LaidOut [block.readBack]
      ([] :: (block.render (Splice.appendIndent lines settings) [] settings ++ [])) :=
    .line (by decide) (.block written List.not_mem_nil .nil)
  rw [List.append_nil] at added
  refine ⟨_, appended, ?_⟩
  rw [List.append_assoc]
  refine laidOut.append added ?_
  intro earlier membership
  rw [List.map_singleton, List.mem_singleton]
  intro equality
  exact absent (equality ▸ List.mem_map_of_mem membership)

end LaidOut

end EnumBlocks
