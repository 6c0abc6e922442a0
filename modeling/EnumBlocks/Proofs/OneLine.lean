import EnumBlocks.Proofs.CommitLines
import EnumBlocks.Proofs.Entry

/-!
Lines without line breaks. Saving blocks without line breaks into lines without line breaks leaves
such lines, so that the saved text is cut into lines as it was put together.
-/

namespace EnumBlocks

/-- Whether a text can be told apart as one line of a file. -/
def IsOneLine (text : Text) : Prop :=
  '\n' ∉ text ∧ '\r' ∉ text

instance (text : Text) : Decidable (IsOneLine text) :=
  inferInstanceAs (Decidable (_ ∧ _))

namespace IsOneLine

theorem subset {first second : Text} (oneLine : IsOneLine second) (part : first ⊆ second) :
    IsOneLine first :=
  ⟨fun membership => oneLine.1 (part membership), fun membership => oneLine.2 (part membership)⟩

theorem append {first second : Text} (oneLine : IsOneLine first)
    (secondOneLine : IsOneLine second) : IsOneLine (first ++ second) := by
  constructor
  · rw [List.mem_append, not_or]
    exact ⟨oneLine.1, secondOneLine.1⟩
  · rw [List.mem_append, not_or]
    exact ⟨oneLine.2, secondOneLine.2⟩

theorem ofName {name : Text} (named : IsName name) : IsOneLine name := by
  constructor <;> intro membership
  · exact absurd (named.2 _ membership) (by decide)
  · exact absurd (named.2 _ membership) (by decide)

theorem indentOf {line : Text} (oneLine : IsOneLine line) : IsOneLine (Text.indentOf line) :=
  oneLine.subset (List.takeWhile_subset _)

theorem attributesOf {line : Text} (oneLine : IsOneLine line) :
    IsOneLine (EnumBlocks.attributesOf line) :=
  oneLine.subset (attributesOf_subset line)

end IsOneLine

/-- Whether an entry is read back as it was written, on one line of its own. -/
structure Entry.Clean (entry : Entry) : Prop where
  plain : entry.Plain
  value : IsOneLine entry.value
  comment : IsOneLine entry.comment

theorem Entry.Clean.ofName {name : Text} (named : IsName name)
    (notUsing : name ≠ ['u', 's', 'i', 'n', 'g'])
    (notImport : name ≠ ['i', 'm', 'p', 'o', 'r', 't']) : Entry.Clean ⟨name, [], []⟩ where
  plain :=
    { named, notUsing, notImport
      noComma := List.not_mem_nil
      braceless := braceless_nil
      unquoted := List.not_mem_nil
      noComment := by simp [commentMark]
      oneLine := List.not_mem_nil }
  value := ⟨List.not_mem_nil, List.not_mem_nil⟩
  comment := ⟨List.not_mem_nil, List.not_mem_nil⟩

/-- Whether an entry is written as one line that has no braces in its code. -/
structure Entry.Contained (entry : Entry) : Prop where
  flat : entry.Flat
  value : IsOneLine entry.value
  comment : IsOneLine entry.comment

theorem Entry.Clean.contained {entry : Entry} (clean : entry.Clean) : entry.Contained :=
  ⟨clean.plain.flat, clean.value, clean.comment⟩

section Render

variable {indent : Text} (indentOneLine : IsOneLine indent)

include indentOneLine in
theorem isOneLine_renderEntry {entry : Entry} (contained : entry.Contained) :
    IsOneLine (entry.render indent) := by
  have name := IsOneLine.ofName contained.flat.named
  constructor
  · exact not_mem_render indentOneLine.1 name.1 contained.value.1 contained.comment.1 (by decide)
  · exact not_mem_render indentOneLine.2 name.2 contained.value.2 contained.comment.2 (by decide)

include indentOneLine in
theorem isOneLine_headerLine {settings : Settings} (readable : settings.Readable)
    {name attributes : Text} (named : IsName name) (attributesOneLine : IsOneLine attributes) :
    IsOneLine (headerLine name indent attributes settings) := by
  have name := IsOneLine.ofName named
  constructor
  · exact not_mem_headerLine name.1 indentOneLine.1 attributesOneLine.1
      (readable.not_mem_accessModifier (by decide)) (by decide)
  · exact not_mem_headerLine name.2 indentOneLine.2 attributesOneLine.2
      (readable.not_mem_accessModifier (by decide)) (by decide)

include indentOneLine in
theorem isOneLine_render {settings : Settings} (readable : settings.Readable)
    (unit : IsOneLine settings.indentUnit) {block : Block} (named : IsName block.name)
    (contained : ∀ entry ∈ block.entries, entry.isWritten = true → entry.Contained) {attributes : Text}
    (attributesOneLine : IsOneLine attributes) :
    ∀ line ∈ block.render indent attributes settings, IsOneLine line := by
  apply Block.forall_mem_render
  · rintro brace (rfl | rfl)
    · exact indentOneLine.append (by decide)
    · exact indentOneLine.append (by decide)
  · intro entry present written
    exact isOneLine_renderEntry (indentOneLine.append unit) (contained entry present written)
  · exact isOneLine_headerLine indentOneLine readable named attributesOneLine

end Render

theorem isOneLine_appendIndent {settings : Settings} (unit : IsOneLine settings.indentUnit)
    {lines : List Text} (eachOneLine : ∀ line ∈ lines, IsOneLine line) :
    IsOneLine (Splice.appendIndent lines settings) :=
  appendIndent_induction IsOneLine (by decide)
    (fun line membership => (eachOneLine line membership).indentOf)
    fun line membership => (eachOneLine line membership).indentOf.append unit

/-- Saving clean blocks into lines without line breaks leaves lines without line breaks. -/
theorem isOneLine_commit {settings : Settings} (readable : settings.Readable)
    (unit : IsOneLine settings.indentUnit) {outline : Outline}
    (named : ∀ block ∈ outline.blocks, IsName block.name)
    (clean : ∀ block ∈ outline.blocks, ∀ entry ∈ block.entries, entry.isWritten = true →
      entry.Clean)
    {lines : List Text} (eachOneLine : ∀ line ∈ lines, IsOneLine line) (pending : Pending)
    (baseline : Option Outline) :
    ∀ line ∈ (commit lines outline pending settings baseline).lines, IsOneLine line := by
  have contained : ∀ block ∈ outline.blocks, ∀ entry ∈ block.entries, entry.isWritten = true →
      entry.Contained :=
    fun block membership entry present written =>
      (clean block membership entry present written).contained
  have rewritten : ∀ block ∈ outline.blocks, ∀ declaration, IsOneLine declaration →
      ∀ line ∈ block.rewritten declaration settings, IsOneLine line :=
    fun block membership _ oneLine =>
      isOneLine_render oneLine.indentOf readable unit (named block membership)
        (contained block membership) oneLine.attributesOf
  unfold commit
  apply @foldl_lines _ (∀ line ∈ ·, IsOneLine line)
  · intro state block membership held
    have present := (List.mem_filter.mp membership).1
    apply Commit.forall_insert held (rewritten block present) (by decide)
    exact isOneLine_render (isOneLine_appendIndent unit held) readable unit (named block present)
      (contained block present) (by decide)
  · apply @foldl_lines _ (∀ line ∈ ·, IsOneLine line)
    · intro state block membership held
      exact Commit.forall_update held (rewritten block (List.mem_filter.mp membership).1)
    · apply @foldl_lines _ (∀ line ∈ ·, IsOneLine line)
      · intro state name _ held
        exact Commit.forall_delete held name
      · exact eachOneLine

end EnumBlocks
