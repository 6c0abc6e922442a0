import EnumBlocks.Proofs.FixedPoint

/-!
Replacing a block that was replaced before. Of the lines that were written, only the indentation and
the attributes of the first are used again, and these are the ones of the line that declared the
block. So only the last replacement counts wherever the lines that were written are found as a
whole. Where every brace in the code counts they always are; where braces in comments count they are
if those of the entries balance, and may be lost otherwise.
-/

namespace EnumBlocks

/-- The last replacement of a block wins. -/
theorem replace_replace {first : Block} {lines : List Text} {settings : Settings} {span : Span}
    (readable : settings.Readable) (counting : settings.counting = .perCharacter)
    (named : IsName first.name)
    (flat : ∀ entry ∈ first.entries, entry.isWritten = true → entry.Flat)
    (located : spanOf first.name lines settings.counting = .ok span)
    (braceless : Braceless (attributesOf (lines.getD span.head []))) :
    ∃ once, Splice.replace first lines settings = .ok once ∧
      first.IsWrittenIn once.lines settings ∧
      ∀ second : Block, second.name = first.name →
        ∃ twice direct, Splice.replace second once.lines settings = .ok twice ∧
          Splice.replace second lines settings = .ok direct ∧ twice.lines = direct.lines := by
  have blank := Text.isBlankText_indentOf (lines.getD span.head [])
  have list := isAttributeList_attributesOf (lines.getD span.head [])
  have absent := undeclared_take_head located
  have extent := isExtent_render readable blank named flat list braceless
  rw [← counting] at extent
  have again := fun second : Block =>
    @replace_render _ readable first _ _ blank list _ extent _ absent
      (lines.drop (span.closing + 1)) second
  simp only [← List.append_assoc] at again
  refine ⟨_, replace_eq located, again first rfl, ?_⟩
  intro second same
  obtain ⟨place, replaced⟩ := again second same
  rw [← same] at located
  exact ⟨_, _, replaced, replace_eq located, rfl⟩

def indentedLines : List Text :=
  [['}'], [' ', '[', 'F', ']', ' ', 'e', 'n', 'u', 'm', ' ', 'A', '{', 'X', ','], ['Y', '}'],
   ['e', 'n', 'u', 'm', ' ', 'B']]

theorem replace_replace_indentedLines :
    ∃ once, Splice.replace ⟨['A'], [⟨['Z'], [], ['}', '{', '{']⟩]⟩ indentedLines {} = .ok once ∧
      ∃ twice direct, Splice.replace ⟨['A'], []⟩ once.lines {} = .ok twice ∧
        Splice.replace ⟨['A'], []⟩ indentedLines {} = .ok direct ∧
        twice.lines = direct.lines := by
  have located : spanOf ['A'] indentedLines .perCharacter = .ok ⟨1, 1, 2⟩ := rfl
  have flat : ∀ entry ∈ [Entry.mk ['Z'] [] ['}', '{', '{']], entry.isWritten = true →
      entry.Flat := by
    intro entry membership _
    obtain rfl := List.mem_singleton.mp membership
    exact ⟨by decide, by decide, by decide⟩
  obtain ⟨once, replaced, -, again⟩ := @replace_replace ⟨['A'], [⟨['Z'], [], ['}', '{', '{']⟩]⟩
    indentedLines {} _ Settings.readable_default rfl (by decide) flat located (by decide)
  exact ⟨once, replaced, again ⟨['A'], []⟩ rfl⟩

/-- The lines after a block was replaced in them; the same ones if it is not located. -/
def Block.replaceIn (block : Block) (lines : List Text) (settings : Settings) : List Text :=
  match Splice.replace block lines settings with
  | .ok splice => splice.lines
  | .error _ => lines

theorem lines_update (settings : Settings) (commit : Commit) (block : Block) :
    (commit.update settings block).lines = block.replaceIn commit.lines settings := by
  rw [Commit.update, Block.replaceIn]
  cases Splice.replace block commit.lines settings <;> rfl

theorem replaceIn_of_located {block : Block} {lines : List Text} {settings : Settings} {span : Span}
    (located : spanOf block.name lines settings.counting = .ok span) :
    block.replaceIn lines settings =
      lines.take span.head ++ block.rewritten (lines.getD span.head []) settings ++
        lines.drop (span.closing + 1) := by
  rw [Block.replaceIn, replace_eq located]

theorem replaceIn_of_not_located {block : Block} {lines : List Text} {settings : Settings}
    {cause : SpanError} (unlocated : spanOf block.name lines settings.counting = .error cause) :
    block.replaceIn lines settings = lines := by
  rw [Block.replaceIn, Splice.replace, unlocated]
  rfl

def Block.comments (block : Block) : List Text :=
  (block.entries.filter Entry.isWritten).map Entry.comment

section Depth

variable {counting : Counting} {inner back : List Text} {closing : Text}

/-- Lines are left by their closing line, if at all, just if the depth stays above their opening
brace throughout and comes back to it, or does not come back to it at all. -/
theorem linesToClose?_length_iff (closes : counting.delta closing = -1) :
    (∀ count ∈ linesToClose? counting 1 (inner ++ closing :: back), count = inner.length) ↔
      StaysOpen counting 1 inner ∧
        (counting.total inner = 0 ∨ StaysOpen counting (counting.total inner) back) := by
  by_cases stays : StaysOpen counting 1 inner
  · have above := stays inner List.prefix_rfl
    rw [linesToClose?_append_of_staysOpen stays, linesToClose?, closes]
    by_cases level : counting.total inner = 0
    · simp [level, stays]
    · -- The closing line leaves the depth above zero, and it is the lines behind it that decide.
      have further : (1 : Int) + counting.total inner + -1 = counting.total inner := by omega
      have positive : 0 < counting.total inner := by omega
      rw [further, if_neg (Int.not_le.mpr positive)]
      simp only [@staysOpen_iff counting _ back, stays, level, positive, true_and, false_or]
      cases linesToClose? counting (counting.total inner) back with
      | none => simp
      | some count => simp
  · have closed : ∃ count, linesToClose? counting 1 inner = some count := by
      rw [← Option.isSome_iff_exists, ← Option.ne_none_iff_isSome]
      intro never
      exact stays (staysOpen_iff.mpr ⟨by decide, never⟩)
    obtain ⟨count, early⟩ := closed
    have within := (linesToClose?_take early).1
    rw [linesToClose?_append early]
    simp only [Option.mem_some_iff, forall_eq', stays, false_and, iff_false]
    omega

end Depth

theorem replaceIn_append_left {block : Block} {settings : Settings} {front : List Text}
    (absent : Undeclared block.name front) (lines : List Text) :
    block.replaceIn (front ++ lines) settings = front ++ block.replaceIn lines settings := by
  cases located : spanOf block.name lines settings.counting with
  | error cause =>
      cases found : spanOf block.name (front ++ lines) settings.counting with
      | error other => rw [replaceIn_of_not_located found, replaceIn_of_not_located located]
      | ok span =>
          obtain ⟨own, ownLocated, -⟩ := (spanOf_append_left absent lines span).mp found
          rw [located] at ownLocated
          contradiction
  | ok span =>
      have shifted := (spanOf_append_left absent lines _).mpr ⟨span, located, rfl⟩
      have head : span.head + front.length = front.length + span.head := Nat.add_comm _ _
      have closing : span.closing + front.length + 1 = front.length + (span.closing + 1) := by omega
      have declaration : (front ++ lines).getD (front.length + span.head) [] =
          lines.getD span.head [] := by
        rw [List.getD_eq_getElem?_getD, List.getElem?_append_right (Nat.le_add_right _ _),
          Nat.add_sub_cancel_left, List.getD_eq_getElem?_getD]
      rw [replaceIn_of_located shifted, replaceIn_of_located located]
      simp only [Span.shift]
      rw [head, closing, declaration, List.take_length_add_append, List.drop_length_add_append,
        List.append_assoc, List.append_assoc, List.append_assoc]

section Written

variable {settings : Settings} (readable : settings.Readable) {block : Block}
  (named : IsName block.name)

include readable named in
/-- Replacing a written block by itself changes nothing just if it is not located, or located as it
was written. -/
theorem replaceIn_render_iff {indent attributes : Text} (blank : Text.isBlankText indent = true)
    (list : IsAttributeList attributes) (braceless : Braceless attributes) (back : List Text) :
    block.replaceIn (block.render indent attributes settings ++ back) settings =
        block.render indent attributes settings ++ back ↔
      ∀ count ∈ linesToClose? settings.counting 1
          (block.entryLines indent settings ++ (indent ++ ['}']) :: back),
        count = (block.entryLines indent settings).length := by
  have own := spanOf_render_append readable blank named list braceless settings.counting back
  cases closed : linesToClose? settings.counting 1
      (block.entryLines indent settings ++ (indent ++ ['}']) :: back) with
  | none =>
      rw [closed] at own
      simp [replaceIn_of_not_located own]
  | some count =>
      rw [closed] at own
      simp only at own
      have within := (spanOf_bounds own).2.2
      have size := length_render block indent attributes settings
      have header : (block.render indent attributes settings ++ back).getD 0 [] =
          (block.render indent attributes settings).headD [] := by
        rw [Block.render_eq]
        rfl
      rw [replaceIn_of_located own, header, rewritten_headD_render readable blank list,
        List.take_zero, List.nil_append, List.append_cancel_left_eq]
      -- What is left behind the lines found is what followed the block just if there are as many of
      -- them as were written.
      constructor
      · intro same other membership
        cases membership
        have length := congrArg List.length same
        simp only [List.length_drop, List.length_append] at length within
        omega
      · intro ends
        have place : 1 + (count + 1) + 1 = (block.render indent attributes settings).length := by
          rw [size, ends count rfl]
          omega
        rw [place, List.drop_left]

include readable in
theorem map_delta_entryLines {indent : Text} (indentBlank : Text.isBlankText indent = true)
    (entries : ∀ entry ∈ block.entries, entry.isWritten = true →
      IsName entry.name ∧ Braceless entry.value) :
    (block.entryLines indent settings).map Counting.perLine.delta =
      block.comments.map Counting.perLine.delta := by
  rw [Block.entryLines, Block.comments, List.map_map, List.map_map]
  refine List.map_congr_left fun entry membership => ?_
  obtain ⟨present, written⟩ := List.mem_filter.mp membership
  obtain ⟨entryNamed, bracelessValue⟩ := entries entry present written
  exact delta_perLine_render entryNamed (isBlankText_entryIndent readable indentBlank)
    bracelessValue

include readable named in
/-- Where braces in comments count, replacing a block by itself once more changes nothing just if
the depth that the comments of its entries lead to stays above the block's brace and comes back to
it, or is not brought back by the lines that follow either. -/
theorem replaceIn_replaceIn_iff (counting : settings.counting = .perLine)
    (entries : ∀ entry ∈ block.entries, entry.isWritten = true →
      IsName entry.name ∧ Braceless entry.value)
    {lines : List Text} {span : Span}
    (located : spanOf block.name lines settings.counting = .ok span)
    (braceless : Braceless (attributesOf (lines.getD span.head []))) :
    block.replaceIn (block.replaceIn lines settings) settings = block.replaceIn lines settings ↔
      StaysOpen .perLine 1 block.comments ∧
        (Counting.perLine.total block.comments = 0 ∨
          StaysOpen .perLine (Counting.perLine.total block.comments)
            (lines.drop (span.closing + 1))) := by
  have blank := Text.isBlankText_indentOf (lines.getD span.head [])
  have list := isAttributeList_attributesOf (lines.getD span.head [])
  have same := map_delta_entryLines readable blank entries
  have total : Counting.perLine.total (block.entryLines (Text.indentOf (lines.getD span.head []))
      settings) = Counting.perLine.total block.comments := by
    rw [Counting.total, same, Counting.total]
  rw [replaceIn_of_located located, List.append_assoc,
    replaceIn_append_left (undeclared_take_head located), List.append_cancel_left_eq,
    Block.rewritten, replaceIn_render_iff readable named blank list braceless, counting,
    linesToClose?_length_iff (delta_closingBrace blank .perLine), total]
  exact and_congr_left fun _ => ⟨StaysOpen.congr same, StaysOpen.congr same.symm⟩

end Written

def namespaceLines : List Text :=
  [['n', 'a', 'm', 'e', 's', 'p', 'a', 'c', 'e', ' ', 'N', ' ', '{'],
   ['e', 'n', 'u', 'm', ' ', 'A', ' ', '{', '}'], ['}']]

/-- The settings under which braces in comments count. -/
def rawSettings : Settings := { counting := .perLine }

def blockWithComments (first second : Text) : Block :=
  ⟨['A'], [⟨['X'], [], first⟩, ⟨['Y'], ['1'], second⟩]⟩

theorem replaceIn_replaceIn_balancedComments :
    (blockWithComments ['{'] ['}']).replaceIn
        ((blockWithComments ['{'] ['}']).replaceIn namespaceLines rawSettings) rawSettings =
      (blockWithComments ['{'] ['}']).replaceIn namespaceLines rawSettings := by
  have readable : rawSettings.Readable :=
    ⟨Settings.readable_default.modifier, Settings.readable_default.indentUnit⟩
  have located : spanOf ['A'] namespaceLines rawSettings.counting = .ok ⟨1, 1, 1⟩ := rfl
  have balanced := @replaceIn_replaceIn_iff _ readable (blockWithComments ['{'] ['}']) (by decide)
    rfl (by decide) _ _ located (by decide)
  exact balanced.mpr (by decide)

/-- A brace that is closed in a comment alone ends the block too early when it is sought again, so
that the rest of it is left over. One that is opened in a comment alone takes in the closing brace
of the namespace. -/
theorem replaceIn_replaceIn_ne :
    spanOf ['A'] namespaceLines rawSettings.counting = .ok ⟨1, 1, 1⟩ ∧
      Braceless (attributesOf (namespaceLines.getD 1 [])) ∧
      (blockWithComments ['}'] []).Plain ∧
      (blockWithComments ['}'] []).replaceIn
          ((blockWithComments ['}'] []).replaceIn namespaceLines rawSettings) rawSettings ≠
        (blockWithComments ['}'] []).replaceIn namespaceLines rawSettings ∧
      (blockWithComments ['{'] []).Plain ∧
      (blockWithComments ['{'] []).replaceIn
          ((blockWithComments ['{'] []).replaceIn namespaceLines rawSettings) rawSettings ≠
        (blockWithComments ['{'] []).replaceIn namespaceLines rawSettings := by
  decide

end EnumBlocks
