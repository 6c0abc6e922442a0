import EnumBlocks.Proofs.ReadEntries
import EnumBlocks.Proofs.Saving
import EnumBlocks.Proofs.Session
import EnumBlocks.Proofs.WellFormed

/-!
Saving an edited document and reading it again. From a well-formed document, whatever blocks are
added, removed and edited, the saved lines are read as the blocks that were to be saved.
-/

namespace EnumBlocks

namespace Document

variable {document : Document} (consistent : document.Consistent)

include consistent in
theorem Consistent.isName {lines : List Text} (loaded : document.loaded = Outline.ofLines lines) :
    ∀ block ∈ document.outline.blocks, IsName block.name := by
  intro block membership
  rcases (consistent.names block.name).mp (List.mem_map_of_mem membership) with
    ⟨known, -⟩ | created
  · rw [loaded, mem_names_ofLines] at known
    exact isName_of_mem_declaredNames known
  · exact (consistent.created block.name created).1

def savedBlocks (document : Document) : List Block :=
  (document.loaded.blocks.filter (·.name ∉ document.pending.deleted)).map
      (revised (blocksToUpdate document.outline document.pending document.baseline)) ++
    (blocksToInsert document.outline document.pending).map Block.readBack

include consistent in
theorem Consistent.name_mem_of_mem_savedBlocks {block : Block}
    (saved : block ∈ document.savedBlocks) : block.name ∈ document.outline.names := by
  rcases List.mem_append.mp saved with kept | added
  · obtain ⟨old, present, rfl⟩ := List.mem_map.mp kept
    obtain ⟨loaded, undeleted⟩ := List.mem_filter.mp present
    rw [name_revised]
    refine (consistent.names old.name).mpr (.inl ⟨List.mem_map_of_mem loaded, ?_⟩)
    simpa using undeleted
  · obtain ⟨new, inserted, rfl⟩ := List.mem_map.mp added
    have present : new.name ∈ document.outline.names :=
      List.mem_map_of_mem (List.mem_filter.mp inserted).1
    exact present

theorem find?_loaded_of_not_mem_blocksToUpdate {block : Block}
    (membership : block ∈ document.outline.blocks)
    (uncreated : block.name ∉ document.pending.created)
    (undeleted : block.name ∉ document.pending.deleted)
    (kept : block ∉ blocksToUpdate document.outline document.pending document.baseline) :
    document.loaded.find? block.name = some block := by
  simp only [blocksToUpdate, List.mem_filter, membership, uncreated, undeleted, not_false_eq_true,
    decide_true, Bool.and_self, Bool.true_and, true_and, Bool.not_eq_true', Bool.not_eq_false,
    Option.any_eq_true] at kept
  rcases kept with ⟨outline, based, found⟩
  -- Without a baseline every block is replaced, so there is one, and it is what was loaded.
  unfold baseline at based
  split at based
  · contradiction
  · cases based
    simpa using found

include consistent in
theorem Consistent.revised_eq
    (read : ∀ block ∈ document.loaded.blocks, block.readBack = block) {block old : Block}
    (membership : block ∈ document.outline.blocks) (loaded : old ∈ document.loaded.blocks)
    (same : old.name = block.name) :
    revised (blocksToUpdate document.outline document.pending document.baseline) old =
      block.readBack := by
  have known : block.name ∈ document.loaded.names := same ▸ List.mem_map_of_mem loaded
  have uncreated : block.name ∉ document.pending.created := fun created =>
    (consistent.created block.name created).2 known
  have undeleted : block.name ∉ document.pending.deleted :=
    (((consistent.names block.name).mp (List.mem_map_of_mem membership)).resolve_right uncreated).2
  by_cases updated : block ∈ blocksToUpdate document.outline document.pending document.baseline
  · have distinct : ((blocksToUpdate document.outline document.pending document.baseline).map
        Block.name).Nodup := document.outline.distinct_filter _
    rw [revised, same, find?_name_of_mem distinct updated]
  · have unchanged := Outline.find?_eq_some_iff.mp
      (find?_loaded_of_not_mem_blocksToUpdate membership uncreated undeleted updated)
    have identical : old = block := Outline.eq_of_name_eq unchanged.1 loaded same
    have absent : (blocksToUpdate document.outline document.pending document.baseline).find?
        (·.name == old.name) = none := by
      rw [List.find?_eq_none]
      intro other present
      rw [beq_iff_eq, same]
      intro again
      have own := Outline.eq_of_name_eq membership (List.mem_filter.mp present).1 again
      exact updated (own ▸ present)
    rw [revised, absent, identical]
    exact (read block unchanged.1).symm

include consistent in
theorem Consistent.readBack_mem_savedBlocks
    (read : ∀ block ∈ document.loaded.blocks, block.readBack = block) {block : Block}
    (membership : block ∈ document.outline.blocks) : block.readBack ∈ document.savedBlocks := by
  unfold savedBlocks
  rw [List.mem_append]
  rcases (consistent.names block.name).mp (List.mem_map_of_mem membership) with
    ⟨known, undeleted⟩ | created
  · left
    obtain ⟨old, loaded, same⟩ := List.mem_map.mp known
    refine List.mem_map.mpr ⟨old, List.mem_filter.mpr ⟨loaded, ?_⟩, ?_⟩
    · rw [decide_eq_true_eq, same]
      exact undeleted
    · exact consistent.revised_eq read membership loaded same
  · right
    refine List.mem_map_of_mem (List.mem_filter.mpr ⟨membership, ?_⟩)
    have undeleted : block.name ∉ document.pending.deleted := fun deleted =>
      (consistent.created block.name created).2 (consistent.deleted block.name deleted)
    simp [created, undeleted]

include consistent in
/-- The blocks that a save leaves are those of the document, as they are read back. -/
theorem Consistent.find?_of_savedBlocks
    (read : ∀ block ∈ document.loaded.blocks, block.readBack = block) {outline : Outline}
    (saved : outline.blocks = document.savedBlocks) (name : Text) :
    outline.find? name = (document.outline.find? name).map Block.readBack := by
  cases found : document.outline.find? name with
  | some block =>
      obtain ⟨membership, rfl⟩ := Outline.find?_eq_some_iff.mp found
      rw [Option.map_some, Outline.find?_eq_some_iff, saved]
      exact ⟨consistent.readBack_mem_savedBlocks read membership, rfl⟩
  | none =>
      rw [Option.map_none, Option.eq_none_iff_forall_ne_some]
      intro block savedFound
      obtain ⟨membership, rfl⟩ := Outline.find?_eq_some_iff.mp savedFound
      rw [saved] at membership
      have known := consistent.name_mem_of_mem_savedBlocks membership
      obtain ⟨own, ownFound⟩ := Outline.mem_names_iff.mp known
      rw [found] at ownFound
      contradiction

include consistent in
theorem Consistent.name_mem_of_mem_blocksToUpdate {baseline : Option Outline} {block : Block}
    (updated : block ∈ blocksToUpdate document.outline document.pending baseline) :
    block.name ∈ document.loaded.names ∧ block.name ∉ document.pending.deleted := by
  obtain ⟨present, kept⟩ := List.mem_filter.mp updated
  simp only [Bool.and_eq_true, decide_eq_true_eq] at kept
  exact ((consistent.names block.name).mp (List.mem_map_of_mem present)).resolve_right kept.1.1

include consistent in
theorem Consistent.name_not_mem_of_mem_blocksToInsert {block : Block}
    (inserted : block ∈ blocksToInsert document.outline document.pending) :
    block.name ∉ document.loaded.names := by
  have kept := (List.mem_filter.mp inserted).2
  simp only [Bool.and_eq_true, decide_eq_true_eq] at kept
  exact (consistent.created block.name kept.1).2

include consistent in
/-- A save removes and replaces only blocks that were loaded, and adds only blocks that were not. -/
theorem Consistent.commitTo_holds (readable : document.settings.Readable)
    (counting : document.settings.counting = .perCharacter) {lines : List Text}
    (laidOut : LaidOut document.loaded.blocks lines)
    (plain : ∀ block ∈ document.outline.blocks, block.Plain) :
    (document.commitTo lines).Holds document.savedBlocks :=
  commit_holds readable counting laidOut plain consistent.deleted
    (fun _ updated => (consistent.name_mem_of_mem_blocksToUpdate updated).1)
    fun _ inserted => consistent.name_not_mem_of_mem_blocksToInsert inserted

end Document

/-- Saving an edited document and reading it again gives back its blocks, without the entries that
are not written and with trimmed values and comments. Nothing is missed, and no line is cut unless
the unit of indentation is. -/
theorem ofLines_commitTo {document : Document} (readable : document.settings.Readable)
    (counting : document.settings.counting = .perCharacter) {lines : List Text}
    (wellFormed : WellFormed lines) {edited : Document}
    (reached : (document.withLines lines).Edited edited)
    (clean : ∀ block ∈ edited.outline.blocks, ∀ entry ∈ block.entries, entry.isWritten = true →
      entry.Clean) :
    (∀ name, (Outline.ofLines (edited.commitTo lines).lines).find? name =
        (edited.outline.find? name).map Block.readBack) ∧
      (edited.commitTo lines).missing = [] ∧ (edited.commitTo lines).errors = [] ∧
      (IsOneLine document.settings.indentUnit →
        ∀ line ∈ (edited.commitTo lines).lines, IsOneLine line) := by
  obtain ⟨consistent, loaded, settings⟩ := reached.invariant (.withLines document lines)
  replace loaded : edited.loaded = Outline.ofLines lines := loaded
  replace settings : edited.settings = document.settings := settings
  rw [← settings] at readable counting ⊢
  have named := consistent.isName loaded
  have read : ∀ block ∈ edited.loaded.blocks, block.readBack = block := by
    rw [loaded]
    intro block membership
    have entries := isRead_of_mem_ofLines membership
    exact readBack_eq_self (fun entry present => (entries entry present).1)
      fun entry present => (entries entry present).2
  have plain : ∀ block ∈ edited.outline.blocks, block.Plain := fun block membership =>
    ⟨named block membership, fun entry present written =>
      (clean block membership entry present written).plain⟩
  have laidOut := wellFormed.laidOut
  rw [← loaded] at laidOut
  have holds := consistent.commitTo_holds readable counting laidOut plain
  exact ⟨consistent.find?_of_savedBlocks read holds.laidOut.blocks_ofLines, holds.missing,
    holds.errors, fun unit => isOneLine_commit readable unit named clean wellFormed.oneLine _ _⟩

def oneBlock : List Text :=
  [['e', 'n', 'u', 'm', ' ', 'A', '{', 'X', '}']]

theorem wellFormed_oneBlock : WellFormed oneBlock := by
  have names : (Outline.ofLines oneBlock).names = [['A']] := rfl
  refine ⟨by decide, ?_, ?_⟩
  · rw [names]
    decide
  · rw [names]
    intro name membership
    obtain rfl := List.mem_singleton.mp membership
    exact ⟨⟨0, 0, 0⟩, rfl, by decide, by decide, by decide, by decide, by decide⟩

def extendedDocument : Document where
  path := ⟨.relative, []⟩
  outline := (Outline.ofLines oneBlock).put ⟨['B'], [defaultEntry]⟩
  loaded := Outline.ofLines oneBlock
  pending := { created := NameSet.empty.insert ['B'] }

theorem ofLines_commitTo_extendedDocument :
    (Outline.ofLines (extendedDocument.commitTo oneBlock).lines).find? ['A'] =
        some ⟨['A'], [⟨['X'], [], []⟩]⟩ ∧
      (Outline.ofLines (extendedDocument.commitTo oneBlock).lines).find? ['B'] =
        some ⟨['B'], [defaultEntry]⟩ := by
  have oneLine : '\n' ∉ ['B'] := by decide
  have reached : (Document.withLines ⟨⟨.relative, []⟩, {}, .empty, .empty, {}⟩ oneBlock).Edited
      extendedDocument := .create .first oneLine rfl
  have clean : ∀ block ∈ extendedDocument.outline.blocks, ∀ entry ∈ block.entries,
      entry.isWritten = true → entry.Clean := by
    have blocks : extendedDocument.outline.blocks =
        [⟨['A'], [⟨['X'], [], []⟩]⟩, ⟨['B'], [defaultEntry]⟩] := rfl
    rw [blocks]
    simp only [List.forall_mem_cons, List.not_mem_nil, false_implies, implies_true, and_true]
    exact ⟨fun _ => .ofName (by decide) (by decide) (by decide),
      fun _ => .ofName (by decide) (by decide) (by decide)⟩
  have saved := (ofLines_commitTo Settings.readable_default rfl wellFormed_oneBlock reached
    clean).1
  exact ⟨saved ['A'], saved ['B']⟩

end EnumBlocks
