import EnumBlocks.Splice
import EnumBlocks.Proofs.Printer
import EnumBlocks.Proofs.Span

/-!
What is left of a document when the lines of one of its blocks are replaced or removed, where the
lines of the block and those around it are known.
-/

namespace EnumBlocks

/-- The lines that a block is replaced by: those it is written as with the indent and the attributes
of the line that declared it. -/
def Block.rewritten (block : Block) (declaration : Text) (settings : Settings) : List Text :=
  block.render (Text.indentOf declaration) (attributesOf declaration) settings

/-- The lines that a block is added to a document as: an empty line and those it is written as with
the indentation that the document asks for. -/
def Block.addedLines (block : Block) (lines : List Text) (settings : Settings) : List Text :=
  [] :: block.render (Splice.appendIndent lines settings) [] settings

theorem replace_eq {block : Block} {lines : List Text} {settings : Settings} {span : Span}
    (located : spanOf block.name lines settings.counting = .ok span) :
    Splice.replace block lines settings =
      .ok ⟨lines.take span.head ++ block.rewritten (lines.getD span.head []) settings ++
        lines.drop (span.closing + 1), span⟩ := by
  rw [Splice.replace, located]
  rfl

theorem remove_eq {name : Text} {lines : List Text} {settings : Settings} {span : Span}
    (located : spanOf name lines settings.counting = .ok span) :
    Splice.remove name lines settings =
      .ok ⟨Splice.dropBlankEnd (lines.take span.head) ++ lines.drop (span.closing + 1), span⟩ := by
  rw [Splice.remove, located]
  rfl

theorem append_eq {block : Block} {lines : List Text} {settings : Settings}
    (absent : Undeclared block.name lines) :
    Splice.append block lines settings =
      .ok ⟨lines ++ [[]] ++ block.render (Splice.appendIndent lines settings) [] settings,
        ⟨lines.length + 1, lines.length + 1 + 1,
          lines.length +
            (block.render (Splice.appendIndent lines settings) [] settings).length⟩⟩ := by
  rw [Splice.append, spanOf_of_undeclared absent]

theorem undeclared_concat_nil {name : Text} {lines : List Text} (absent : Undeclared name lines) :
    Undeclared name (lines ++ [[]]) := by
  apply undeclared_append.mpr
  refine ⟨absent, ?_⟩
  intro line membership
  rw [List.mem_singleton.mp membership]
  rfl

theorem namespace?_eq_some {line : Text} {parts : Text × Bool}
    (found : Splice.namespace? line = some parts) : parts.1 = Text.indentOf line := by
  unfold Splice.namespace? at found
  obtain ⟨after, -, read⟩ := Option.bind_eq_some_iff.mp found
  simp only at read
  split at read
  · contradiction
  · cases read
    rfl

theorem appendIndentFrom_cases (unit indent : Text) (depth : Int) (lines : List Text) :
    Splice.appendIndentFrom unit indent depth lines = indent ∨
      ∃ line ∈ lines, Splice.appendIndentFrom unit indent depth lines = Text.indentOf line ∨
        Splice.appendIndentFrom unit indent depth lines = Text.indentOf line ++ unit := by
  induction lines generalizing indent depth with
  | nil => exact .inl rfl
  | cons line rest inductionHypothesis =>
      rw [Splice.appendIndentFrom]
      rcases inductionHypothesis _ _ with kept | ⟨other, membership, found⟩
      · rw [kept]
        split
        · split
          · rename_i own parts
            exact .inr ⟨line, List.mem_cons_self, .inl (namespace?_eq_some parts)⟩
          · rename_i own parts
            have same : own = Text.indentOf line := namespace?_eq_some parts
            exact .inr ⟨line, List.mem_cons_self, .inr (by rw [same])⟩
          · exact .inl rfl
        · exact .inl rfl
      · exact .inr ⟨other, List.mem_cons_of_mem line membership, found⟩

/-- The indentation of an added block has every property that the empty text has, that the indents
of the lines have, and that these keep when they go one unit deeper. -/
theorem appendIndent_induction (holds : Text → Prop) {settings : Settings} {lines : List Text}
    (empty : holds []) (own : ∀ line ∈ lines, holds (Text.indentOf line))
    (deeper : ∀ line ∈ lines, holds (Text.indentOf line ++ settings.indentUnit)) :
    holds (Splice.appendIndent lines settings) := by
  rcases appendIndentFrom_cases settings.indentUnit [] 0 lines with
    none | ⟨line, membership, same | same⟩
  · rw [Splice.appendIndent, none]
    exact empty
  · rw [Splice.appendIndent, same]
    exact own line membership
  · rw [Splice.appendIndent, same]
    exact deeper line membership

theorem dropBlankEnd_subset (lines : List Text) : Splice.dropBlankEnd lines ⊆ lines := by
  unfold Splice.dropBlankEnd
  split
  · split
    · exact List.dropLast_subset lines
    · exact List.Subset.refl lines
  · exact List.Subset.refl lines

section Origin

variable {lines : List Text} {settings : Settings} {splice : Splice}

theorem subset_of_remove {name : Text} (removed : Splice.remove name lines settings = .ok splice) :
    splice.lines ⊆ lines := by
  cases located : spanOf name lines settings.counting with
  | error cause =>
      rw [Splice.remove, located] at removed
      contradiction
  | ok span =>
      rw [remove_eq located] at removed
      cases removed
      intro line membership
      rcases List.mem_append.mp membership with earlier | later
      · exact List.mem_of_mem_take (dropBlankEnd_subset _ earlier)
      · exact List.mem_of_mem_drop later

/-- Every line that is left when a block is replaced was there before, or the block is written as it
with the indent and the attributes of a line that was there. -/
theorem mem_of_mem_replace {block : Block}
    (replaced : Splice.replace block lines settings = .ok splice) {line : Text}
    (membership : line ∈ splice.lines) :
    line ∈ lines ∨ ∃ declaration ∈ lines, line ∈ block.rewritten declaration settings := by
  cases located : spanOf block.name lines settings.counting with
  | error cause =>
      rw [Splice.replace, located] at replaced
      contradiction
  | ok span =>
      rw [replace_eq located] at replaced
      cases replaced
      simp only [List.mem_append] at membership
      rcases membership with (earlier | written) | later
      · exact .inl (List.mem_of_mem_take earlier)
      · have bounds := spanOf_bounds located
        have inside : span.head < lines.length := by omega
        rw [List.getD_eq_getElem?_getD, List.getElem?_eq_getElem inside, Option.getD_some]
          at written
        exact .inr ⟨_, List.getElem_mem inside, written⟩
      · exact .inl (List.mem_of_mem_drop later)

/-- Every line that is left when a block is added was there before, or is empty, or is one that the
block is written as. -/
theorem mem_of_mem_append {block : Block}
    (added : Splice.append block lines settings = .ok splice) {line : Text}
    (membership : line ∈ splice.lines) :
    line ∈ lines ∨ line = [] ∨
      line ∈ block.render (Splice.appendIndent lines settings) [] settings := by
  unfold Splice.append at added
  split at added
  · contradiction
  · cases added
    simpa [or_assoc] using membership

end Origin

section Surrounded

variable {settings : Settings} {name : Text} {body : List Text} {opening : Nat}
  (extent : IsExtent name settings.counting body opening)

include extent in
theorem drop_closing_surrounded (front back : List Text) :
    (front ++ (body ++ back)).drop (front.length + (body.length - 1) + 1) = back := by
  have bounds := spanOf_bounds extent
  have size : front.length + (body.length - 1) + 1 = (front ++ body).length := by
    rw [List.length_append]
    omega
  rw [size, ← List.append_assoc, List.drop_left]

variable {front : List Text} (absent : Undeclared name front) (back : List Text)

include extent absent in
theorem remove_surrounded :
    Splice.remove name (front ++ (body ++ back)) settings =
      .ok ⟨Splice.dropBlankEnd front ++ back,
        ⟨front.length, front.length + opening, front.length + (body.length - 1)⟩⟩ := by
  rw [remove_eq (extent.spanOf_surrounded absent back)]
  simp only [drop_closing_surrounded extent, List.take_left]

include extent absent in
theorem replace_surrounded {block : Block} (same : block.name = name) :
    Splice.replace block (front ++ (body ++ back)) settings =
      .ok ⟨front ++ (block.rewritten (body.headD []) settings ++ back),
        ⟨front.length, front.length + opening, front.length + (body.length - 1)⟩⟩ := by
  subst same
  have bounds := spanOf_bounds extent
  have declaration : (front ++ (body ++ back)).getD front.length [] = body.headD [] := by
    cases body with
    | nil => simp at bounds
    | cons header rest => simp
  rw [replace_eq (extent.spanOf_surrounded absent back)]
  simp only [drop_closing_surrounded extent, List.take_left, declaration, List.append_assoc]

end Surrounded

end EnumBlocks
