import EnumBlocks.Proofs.Normalization
import EnumBlocks.Proofs.Overwriting
import EnumBlocks.Proofs.StoredFile

/-!
The file that a save leaves. Where every block of its document is read back as it is written, so is
the file, down to the last byte. So a second save, of a document with other entries in one block,
leaves the bytes that a single save of these entries leaves.
-/

namespace EnumBlocks

section Replaced

variable {settings : Settings} (readable : settings.Readable) {mark : Char}

include readable in
theorem head?_headerLine_ne (foreign : mark ∉ ['e', 'p', 'i']) {declaration : Text}
    (begins : declaration.head? ≠ some mark) (name : Text) :
    (headerLine name (Text.indentOf declaration) (attributesOf declaration) settings).head? ≠
      some mark := by
  have front := indentOf_append_attributesOf declaration
  rw [headerLine_eq]
  cases kept : Text.indentOf declaration ++ attributesOf declaration with
  | nil =>
      obtain ⟨noIndent, noAttributes⟩ := List.append_eq_nil_iff.mp kept
      obtain ⟨c, tail, shape, start⟩ := modifierPart_start readable (' ' :: name)
      rw [noIndent, noAttributes, shape]
      exact fun same => foreign (Option.some.inj same ▸ start)
  | cons c rest =>
      obtain ⟨blanks, attributes⟩ : ∃ blanks, attributePart (attributesOf declaration) =
          attributesOf declaration ++ blanks := by
        unfold attributePart
        split
        · rename_i none
          exact ⟨[], by rw [none, List.append_nil]⟩
        · exact ⟨[' '], rfl⟩
      obtain ⟨others, whole⟩ := kept ▸ front
      rw [← whole] at begins
      rw [attributes, ← List.append_assoc (Text.indentOf declaration), kept]
      exact begins

theorem getLast?_rewritten (block : Block) (declaration : Text) :
    (block.rewritten declaration settings).getLast? =
      some (Text.indentOf declaration ++ ['}']) := by
  rw [Block.rewritten, Block.render_eq_openLines_concat, List.getLast?_concat]

theorem Block.IsWrittenIn.length_le {block : Block} {lines : List Text}
    (written : block.IsWrittenIn lines settings) : 3 ≤ lines.length := by
  obtain ⟨span, replaced⟩ := written
  cases located : spanOf block.name lines settings.counting with
  | error cause =>
      rw [Splice.replace, located] at replaced
      contradiction
  | ok own =>
      rw [replace_eq located] at replaced
      have length := congrArg (List.length ∘ Splice.lines) (Except.ok.inj replaced)
      simp only [Function.comp_apply, List.length_append, Block.rewritten, length_render] at length
      omega

variable {block : Block} (contained : ∀ entry ∈ block.entries, entry.isWritten = true →
  entry.Contained) (named : IsName block.name) (unit : IsOneLine settings.indentUnit)

include readable contained named unit in
/-- Replacing a block in the lines of a file leaves a file that is read as it is written. -/
theorem TextFile.Separable.replaceIn {file : TextFile} (separable : file.Separable) :
    { file with lines := block.replaceIn file.lines settings }.Separable := by
  obtain ⟨isBreak, oneLine, last, apart⟩ := separable
  have written : ∀ line ∈ block.replaceIn file.lines settings, IsOneLine line := by
    have updated := @Commit.forall_update settings (Commit.start file.lines) IsOneLine oneLine block
      fun declaration declared => isOneLine_render declared.indentOf readable unit named contained
        declared.attributesOf
    rwa [lines_update] at updated
  cases located : spanOf block.name file.lines settings.counting with
  | error cause =>
      rw [replaceIn_of_not_located located]
      exact ⟨isBreak, oneLine, last, apart⟩
  | ok span =>
      have bounds := spanOf_bounds located
      refine ⟨isBreak, written, last.imp_right fun ended => ?_, apart.imp_right fun begins => ?_⟩
      · rw [replaceIn_of_located located]
        by_cases behind : file.lines.drop (span.closing + 1) = []
        · rw [behind, List.append_nil, List.getLast?_append, getLast?_rewritten]
          simp
        · rw [List.getLast?_append_of_ne_nil _ behind, List.getLast?_drop, if_neg]
          · exact ended
          · rwa [List.drop_eq_nil_iff] at behind
      · rw [replaceIn_of_located located]
        cases shape : file.lines with
        | nil =>
            rw [shape, List.length_nil] at bounds
            omega
        | cons first rest =>
            have firstBegins : first.head? ≠ some markCharacter := begins first (by rw [shape]; rfl)
            cases span.head with
            | zero =>
                have header := head?_headerLine_ne readable (by decide) firstBegins block.name
                rw [List.take_zero, List.nil_append, List.getD_cons_zero, Block.rewritten,
                  Block.render_eq, List.cons_append, List.head?_cons]
                simpa using header
            | succ _ => simpa using firstBegins

include readable unit in
theorem TextFile.Separable.replaceAllIn {blocks : List Block}
    (faithful : ∀ block ∈ blocks, block.Faithful) {file : TextFile} (separable : file.Separable) :
    { file with lines := EnumBlocks.replaceAllIn blocks settings file.lines }.Separable := by
  induction blocks generalizing file with
  | nil => exact separable
  | cons block rest inductionHypothesis =>
      rw [List.forall_mem_cons] at faithful
      have replaced := separable.replaceIn readable
        (fun entry membership _ => (faithful.1.clean entry membership).contained) faithful.1.named
        unit
      exact inductionHypothesis faithful.2 replaced

end Replaced

namespace Document

def overwriting (document : Document) (lines : List Text) (block : Block) : Document :=
  { document.withLines lines with outline := (Outline.ofLines lines).put block }

variable {document : Document} (saves : document.settings.savesUnchanged = true)

include saves in
theorem commitTo_overwriting (lines : List Text) (block : Block) :
    (document.overwriting lines block).commitTo lines =
      commit lines ((Outline.ofLines lines).put block) {} document.settings none := by
  have based : (document.overwriting lines block).baseline = none := if_pos saves
  rw [commitTo, based]
  rfl

section Appended

variable (readable : document.settings.Readable)
  (counting : document.settings.counting = .perCharacter)
  (unit : IsOneLine document.settings.indentUnit) {content : Bytes} {file : TextFile}
  (read : TextFile.ofBytes content = .ok file) (wellFormed : WellFormed file.lines)
  (faithful : ∀ own ∈ (Outline.ofLines file.lines).blocks, own.Faithful)

/-- The file with the lines that a save of another block leaves. -/
def overwritten (document : Document) (file : TextFile) (block : Block) : TextFile :=
  { file with lines := ((document.overwriting file.lines block).commitTo file.lines).lines }

theorem overwritten_eq_self {block : Block}
    (unchanged : (document.overwritten file block).lines = file.lines) :
    document.overwritten file block = file := by
  rw [overwritten] at unchanged ⊢
  simp only at unchanged
  rw [unchanged]

theorem savedBytes_overwriting (document : Document) (file : TextFile) (block : Block)
    (content : Bytes) :
    (document.overwriting file.lines block).savedBytes file content =
      if (document.overwritten file block).lines = file.lines then content
      else (document.overwritten file block).toBytes :=
  savedBytes_eq _ _ _

include faithful in
theorem faithful_put {block : Block} (blockFaithful : block.Faithful) :
    ∀ own ∈ ((Outline.ofLines file.lines).put block).blocks, own.Faithful := by
  intro own membership
  rcases Outline.mem_blocks_put.mp membership with rfl | ⟨old, -⟩
  · exact blockFaithful
  · exact faithful own old

include saves readable counting unit read wellFormed faithful in
/-- A file in which a block was overwritten is read as it was written. -/
theorem ofBytes_savedBytes_overwriting {block : Block}
    (present : block.name ∈ (Outline.ofLines file.lines).names) (blockFaithful : block.Faithful) :
    TextFile.ofBytes ((document.overwriting file.lines block).savedBytes file content) =
      .ok (document.overwritten file block) := by
  have each := faithful_put faithful blockFaithful
  have commits := commitTo_overwriting saves file.lines block
  rw [savedBytes_overwriting]
  split
  · rename_i unchanged
    rw [overwritten_eq_self unchanged]
    exact read
  · obtain ⟨-, -, written⟩ := ofLines_commit_faithful readable counting wellFormed
      (Outline.names_put_of_mem present) each
    have own : block ∈ ((Outline.ofLines file.lines).put block).blocks :=
      Outline.mem_blocks_put.mpr (.inl rfl)
    have several := (written block own).length_le
    rw [← commits] at several
    have separable := (TextFile.separable_of_ofBytes read).replaceAllIn readable unit each
    rw [← lines_commit_unedited, ← commits] at separable
    exact separable.ofBytes_toBytes (Nat.le_of_succ_le several)

include saves readable counting wellFormed faithful in
theorem lines_overwritten_overwritten {first second : Block} (same : second.name = first.name)
    (present : first.name ∈ (Outline.ofLines file.lines).names) (firstFaithful : first.Faithful)
    (secondFaithful : second.Faithful) :
    document.overwritten (document.overwritten file first) second =
      document.overwritten file second := by
  have kept := lines_commit_put_commit readable counting wellFormed
    (Outline.names_put_of_mem present) (faithful_put faithful firstFaithful)
    (Outline.mem_names_put.mpr (.inr same)) secondFaithful
  rw [Outline.put_put same.symm] at kept
  simp only [← commitTo_overwriting saves] at kept
  simp only [overwritten, kept]

include saves readable counting wellFormed faithful in
theorem ofLines_overwritten {block : Block}
    (present : block.name ∈ (Outline.ofLines file.lines).names) (blockFaithful : block.Faithful) :
    Outline.ofLines (document.overwritten file block).lines =
      (Outline.ofLines file.lines).put block := by
  obtain ⟨-, read, -⟩ := ofLines_commit_faithful readable counting wellFormed
    (Outline.names_put_of_mem present) (faithful_put faithful blockFaithful)
  rw [← commitTo_overwriting saves] at read
  exact read

include saves readable counting wellFormed faithful in
theorem mem_blocks_of_lines_overwritten_eq {block : Block}
    (present : block.name ∈ (Outline.ofLines file.lines).names) (blockFaithful : block.Faithful)
    (unchanged : (document.overwritten file block).lines = file.lines) :
    block ∈ (Outline.ofLines file.lines).blocks := by
  have read := ofLines_overwritten saves readable counting wellFormed faithful present blockFaithful
  rw [unchanged] at read
  rw [read]
  exact Outline.mem_blocks_put.mpr (.inl rfl)

include saves readable counting wellFormed faithful in
/-- Adding entries to a block and saving, and adding further ones to what is read then, leaves the
bytes that adding all of them at once leaves. -/
theorem savedBytes_overwriting_append {block : Block}
    (present : block ∈ (Outline.ofLines file.lines).blocks) {given further : List Entry}
    (once : (block.append given).Faithful) (whole : (block.append (given ++ further)).Faithful) :
    let first := block.append given
    let second := block.append (given ++ further)
    (document.overwriting (document.overwritten file first).lines second).savedBytes
        (document.overwritten file first)
        ((document.overwriting file.lines first).savedBytes file content) =
      (document.overwriting file.lines second).savedBytes file content := by
  intro first second
  have same : second.name = first.name := rfl
  have known : first.name ∈ (Outline.ofLines file.lines).names := by
    have own : block.name ∈ (Outline.ofLines file.lines).names := List.mem_map_of_mem present
    exact own
  have twice := lines_overwritten_overwritten saves readable counting wellFormed faithful same known
    once whole
  rw [savedBytes_overwriting, savedBytes_overwriting, savedBytes_overwriting, twice]
  by_cases unchanged : (document.overwritten file first).lines = file.lines
  · rw [if_pos unchanged, unchanged]
  · have changed : (document.overwritten file second).lines ≠ file.lines := by
      intro nothing
      have old : second ∈ (Outline.ofLines file.lines).blocks :=
        mem_blocks_of_lines_overwritten_eq saves readable counting wellFormed faithful
          (same ▸ known) whole nothing
      have entries := congrArg Block.entries (Outline.eq_of_name_eq present old rfl)
      have nothingAdded : given ++ further = [] := by
        simpa [second, Block.append] using entries
      obtain ⟨rfl, rfl⟩ := List.append_eq_nil_iff.mp nothingAdded
      exact unchanged nothing
    rw [if_neg unchanged, if_neg changed]
    split
    · rename_i again
      rw [← twice] at again ⊢
      rw [overwritten_eq_self again]
    · rfl

end Appended

end Document

end EnumBlocks
