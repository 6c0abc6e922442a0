import EnumBlocks.Proofs.FixedPoint
import EnumBlocks.Proofs.RoundTrip

/-!
Saving a second time. The first save leaves each block in the lines that it is written as, with the
indent and the attributes that its declaration had, and what is read of them is written as the same
lines. So a save of the blocks that are read of a saved document changes nothing.
-/

namespace EnumBlocks

/-- Whether a block is written the same after it was read back. -/
structure Block.Stable (block : Block) : Prop where
  plain : block.Plain
  comments : ∀ entry ∈ block.entries, entry.isWritten = true →
    Text.stripEnd entry.comment = entry.comment

theorem render_trimmed {entry : Entry} (comment : Text.stripEnd entry.comment = entry.comment)
    (indent : Text) : entry.trimmed.render indent = entry.render indent := by
  have value : Entry.valuePart (Text.strip entry.value) = Entry.valuePart entry.value := by
    rw [Entry.valuePart, Entry.valuePart, Text.isBlankText_strip, Text.strip_strip]
  rw [Entry.render, Entry.trimmed, value, comment, Entry.render]

theorem render_readBack {block : Block} (stable : block.Stable) (indent attributes : Text)
    (settings : Settings) :
    block.readBack.render indent attributes settings = block.render indent attributes settings := by
  have written : ∀ entry ∈ block.entries.filter Entry.isWritten,
      entry.trimmed.isWritten = true := by
    intro entry membership
    exact (List.mem_filter.mp membership).2
  have kept : ((block.entries.filter Entry.isWritten).map Entry.trimmed).filter Entry.isWritten =
      (block.entries.filter Entry.isWritten).map Entry.trimmed := by
    rw [List.filter_eq_self, List.forall_mem_map]
    exact written
  have same : ((block.entries.filter Entry.isWritten).map Entry.trimmed).map
      (Entry.render · (indent ++ settings.indentUnit)) =
        (block.entries.filter Entry.isWritten).map
          (Entry.render · (indent ++ settings.indentUnit)) := by
    rw [List.map_map]
    refine List.map_congr_left fun entry membership => ?_
    obtain ⟨present, isWritten⟩ := List.mem_filter.mp membership
    exact render_trimmed (stable.comments entry present isWritten) _
  rw [Block.render, Block.readBack, kept, same, Block.render]

section Surrounded

variable {settings : Settings} {block : Block}

theorem isWrittenIn_surrounded_iff {body : List Text} {opening : Nat}
    (extent : IsExtent block.name settings.counting body opening) {front : List Text}
    (absent : Undeclared block.name front) (back : List Text) :
    block.IsWrittenIn (front ++ (body ++ back)) settings ↔
      block.rewritten (body.headD []) settings = body := by
  rw [Block.IsWrittenIn, replace_surrounded extent absent back rfl]
  simp

/-- Whether a block stands as it is written does not depend on what is around the part of a document
that it belongs to. -/
theorem LaidOut.isWrittenIn_surrounded_iff (counting : settings.counting = .perCharacter)
    {blocks : List Block} {lines : List Text} (laidOut : LaidOut blocks lines)
    (membership : block ∈ blocks) {front : List Text} (absent : Undeclared block.name front)
    (back : List Text) :
    block.IsWrittenIn (front ++ (lines ++ back)) settings ↔ block.IsWrittenIn lines settings := by
  obtain ⟨before, after, rfl⟩ := List.append_of_mem membership
  have fresh := laidOut.apart.2.1
  obtain ⟨first, body, last, rfl, firstLaidOut, text, -⟩ := laidOut.exists_split rfl
  have firstAbsent := firstLaidOut.undeclared text.named fresh
  obtain ⟨opening, extent⟩ := text.extent
  rw [← counting] at extent
  have whole : front ++ (first ++ (body ++ last) ++ back) =
      (front ++ first) ++ (body ++ (last ++ back)) := by
    simp only [List.append_assoc]
  rw [whole,
    EnumBlocks.isWrittenIn_surrounded_iff extent (undeclared_append.mpr ⟨absent, firstAbsent⟩),
    EnumBlocks.isWrittenIn_surrounded_iff extent firstAbsent]

end Surrounded

namespace LaidOut

variable {settings : Settings} (readable : settings.Readable)
  (counting : settings.counting = .perCharacter) {block : Block} (stable : block.Stable)

include readable counting stable in
/-- A block that replaces another stands as it is written, and so does every block that did before.
-/
theorem replace_isWrittenIn {before after : List Block} {old : Block} {lines : List Text}
    (laidOut : LaidOut (before ++ old :: after) lines) (same : block.name = old.name)
    {splice : Splice} (replaced : Splice.replace block lines settings = .ok splice) :
    block.readBack.IsWrittenIn splice.lines settings ∧
      ∀ other ∈ before ++ after, other.IsWrittenIn lines settings →
        other.IsWrittenIn splice.lines settings := by
  rcases laidOut.apart with ⟨disjoint, absent, fresh⟩
  have named := laidOut.named
  obtain ⟨front, body, back, rfl, first, text, last⟩ := laidOut.exists_split rfl
  have frontAbsent := first.undeclared text.named absent
  obtain ⟨opening, extent⟩ := text.extent
  rw [← counting] at extent
  rw [replace_surrounded extent frontAbsent back same] at replaced
  cases replaced
  have blank := Text.isBlankText_indentOf (body.headD [])
  have list := isAttributeList_attributesOf (body.headD [])
  have writtenText : IsBlockText block.readBack (block.rewritten (body.headD []) settings) :=
    isBlockText_render readable blank stable.plain list text.bracelessAttributes
  have written : block.readBack.render (Text.indentOf (body.headD []))
      (attributesOf (body.headD [])) settings = block.rewritten (body.headD []) settings :=
    render_readBack stable _ _ settings
  constructor
  · obtain ⟨place, ownExtent⟩ := writtenText.extent
    rw [← counting, ← written] at ownExtent
    have kept := isWrittenIn_render readable blank list ownExtent (same ▸ frontAbsent) back
    rwa [written] at kept
  · intro other membership stood
    rcases List.mem_append.mp membership with earlier | later
    · have own : ∀ rest, other.IsWrittenIn (front ++ rest) settings ↔
          other.IsWrittenIn front settings :=
        first.isWrittenIn_surrounded_iff counting earlier (undeclared_nil other.name)
      exact (own _).mpr ((own _).mp stood)
    · have own : ∀ {rest}, Undeclared other.name rest →
          (other.IsWrittenIn (rest ++ back) settings ↔ other.IsWrittenIn back settings) := by
        intro rest restAbsent
        have around := last.isWrittenIn_surrounded_iff counting later restAbsent []
        rwa [List.append_nil] at around
      have otherNamed := named other (by simp [later])
      have frontUndeclared := first.undeclared otherNamed fun membership => by
        obtain ⟨twin, twinMembership, sameName⟩ := List.mem_map.mp membership
        exact disjoint twin twinMembership (sameName ▸ List.mem_map_of_mem later)
      have different : other.name ≠ old.name := fun sameName =>
        fresh (sameName ▸ List.mem_map_of_mem later)
      have bodyUndeclared := text.undeclared otherNamed different
      have writtenUndeclared := writtenText.undeclared otherNamed (same ▸ different)
      rw [← List.append_assoc] at stood ⊢
      refine (own (undeclared_append.mpr ⟨frontUndeclared, writtenUndeclared⟩)).mpr ?_
      exact (own (undeclared_append.mpr ⟨frontUndeclared, bodyUndeclared⟩)).mp stood

include readable counting stable in
theorem append_isWrittenIn {blocks : List Block} {lines : List Text}
    (laidOut : LaidOut blocks lines) (absent : block.name ∉ blocks.map Block.name)
    {splice : Splice} (added : Splice.append block lines settings = .ok splice) :
    block.readBack.IsWrittenIn splice.lines settings ∧
      ∀ other ∈ blocks, other.IsWrittenIn lines settings →
        other.IsWrittenIn splice.lines settings := by
  have undeclared := laidOut.undeclared stable.plain.named absent
  have appended := @append_eq block lines settings undeclared
  rw [appended] at added
  cases added
  have blank := isBlankText_appendIndent readable lines
  constructor
  · have extent := isExtent_added readable counting stable.plain.named stable.plain.flat lines
    have front := undeclared_concat_nil undeclared
    rw [← render_readBack stable] at extent
    have kept := @isWrittenIn_render _ readable block.readBack _ _ blank isAttributeList_nil _
      extent _ front []
    rwa [render_readBack stable, List.append_nil] at kept
  · intro other membership stood
    rw [List.append_assoc]
    exact (laidOut.isWrittenIn_surrounded_iff counting membership (undeclared_nil other.name) _).mpr
      stood

end LaidOut

/-- Whether a document has the given blocks, and those of some names stand as they are written. -/
structure Commit.Writes (settings : Settings) (commit : Commit) (blocks : List Block)
    (names : List Text) : Prop where
  holds : commit.Holds blocks
  written : ∀ block ∈ blocks, block.name ∈ names → block.IsWrittenIn commit.lines settings

namespace Commit.Writes

variable {settings : Settings} (readable : settings.Readable)
  (counting : settings.counting = .perCharacter) {blocks : List Block} {names : List Text}
  {commit : Commit} (writes : commit.Writes settings blocks names)

include readable counting writes in
theorem update {block : Block} (stable : block.Stable)
    (present : block.name ∈ blocks.map Block.name) :
    (commit.update settings block).Writes settings (replaceBlock block.readBack blocks)
      (names ++ [block.name]) := by
  have next := writes.holds.update counting readable stable.plain present
  refine ⟨next, ?_⟩
  obtain ⟨old, membership, same⟩ := List.mem_map.mp present
  obtain ⟨before, after, rfl⟩ := List.append_of_mem membership
  obtain ⟨splice, replaced, -⟩ := writes.holds.laidOut.replace readable counting stable.plain
    same.symm
  obtain ⟨own, others⟩ := writes.holds.laidOut.replace_isWrittenIn readable counting stable
    same.symm replaced
  rw [Commit.update, replaced]
  intro other otherMembership named
  obtain ⟨earlier, earlierMembership, rfl⟩ := List.mem_map.mp otherMembership
  by_cases replacement : earlier.name = block.readBack.name
  · rw [if_pos replacement]
    exact own
  · rw [if_neg replacement] at named ⊢
    have rest : earlier ∈ before ++ after := by
      simp only [List.mem_append, List.mem_cons] at earlierMembership ⊢
      rcases earlierMembership with first | rfl | last
      · exact .inl first
      · exact absurd same replacement
      · exact .inr last
    have known : earlier.name ∈ names := by
      rw [List.mem_append, List.mem_singleton] at named
      exact named.resolve_right replacement
    exact others earlier rest (writes.written earlier earlierMembership known)

include readable counting writes in
theorem insert {block : Block} (stable : block.Stable)
    (absent : block.name ∉ blocks.map Block.name) :
    (commit.insert settings block).Writes settings (blocks ++ [block.readBack])
      (names ++ [block.name]) := by
  refine ⟨writes.holds.insert readable stable.plain absent, ?_⟩
  obtain ⟨splice, added, -⟩ := writes.holds.laidOut.insert readable stable.plain absent
  obtain ⟨own, others⟩ := writes.holds.laidOut.append_isWrittenIn readable counting stable absent
    added
  rw [Commit.insert, added]
  intro other membership named
  rcases List.mem_append.mp membership with earlier | last
  · have different : other.name ≠ block.name := fun same =>
      absent (same ▸ List.mem_map_of_mem earlier)
    rw [List.mem_append, List.mem_singleton] at named
    exact others other earlier (writes.written other earlier (named.resolve_right different))
  · rw [List.mem_singleton.mp last]
    exact own

include readable counting writes in
theorem foldl_update {updates : List Block} (stable : ∀ block ∈ updates, block.Stable)
    (present : ∀ block ∈ updates, block.name ∈ blocks.map Block.name) :
    ∃ left, left.map Block.name = blocks.map Block.name ∧
      (updates.foldl (Commit.update settings) commit).Writes settings left
        (names ++ updates.map Block.name) := by
  induction updates generalizing commit blocks names with
  | nil => exact ⟨blocks, rfl, by simpa using writes⟩
  | cons block rest inductionHypothesis =>
      rw [List.forall_mem_cons] at stable present
      have next := writes.update readable counting stable.1 present.1
      have sameNames := map_name_replaceBlock block.readBack blocks
      obtain ⟨left, kept, written⟩ := inductionHypothesis next stable.2 (sameNames ▸ present.2)
      refine ⟨left, kept.trans sameNames, ?_⟩
      rw [List.foldl_cons, List.map_cons, List.append_cons]
      exact written

include readable counting writes in
theorem foldl_insert {insertions : List Block} (stable : ∀ block ∈ insertions, block.Stable)
    (distinct : (insertions.map Block.name).Nodup)
    (absent : ∀ block ∈ insertions, block.name ∉ blocks.map Block.name) :
    ∃ left, left.map Block.name = blocks.map Block.name ++ insertions.map Block.name ∧
      (insertions.foldl (Commit.insert settings) commit).Writes settings left
        (names ++ insertions.map Block.name) := by
  induction insertions generalizing commit blocks names with
  | nil => exact ⟨blocks, by simp, by simpa using writes⟩
  | cons block rest inductionHypothesis =>
      rw [List.forall_mem_cons] at stable absent
      rw [List.map_cons, List.nodup_cons] at distinct
      have next := writes.insert readable counting stable.1 absent.1
      have sameNames : (blocks ++ [block.readBack]).map Block.name =
          blocks.map Block.name ++ [block.name] := List.map_append
      have remaining : ∀ other ∈ rest,
          other.name ∉ (blocks ++ [block.readBack]).map Block.name := by
        intro other membership
        rw [sameNames, List.mem_append, List.mem_singleton, not_or]
        exact ⟨absent.2 other membership,
          fun same => distinct.1 (same ▸ List.mem_map_of_mem membership)⟩
      obtain ⟨left, kept, written⟩ := inductionHypothesis next stable.2 distinct.2 remaining
      refine ⟨left, ?_, ?_⟩
      · rw [kept, sameNames, List.map_cons, List.append_assoc]
        rfl
      · rw [List.foldl_cons, List.map_cons, List.append_cons]
        exact written

end Commit.Writes

section Save

variable {document : Document} (consistent : document.Consistent)

include consistent in
theorem Document.Consistent.name_mem_blocksToUpdate {name : Text}
    (loaded : name ∈ document.loaded.names) (undeleted : name ∉ document.pending.deleted) :
    name ∈ (blocksToUpdate document.outline document.pending none).map Block.name := by
  obtain ⟨block, membership, rfl⟩ :=
    List.mem_map.mp ((consistent.names name).mpr (.inl ⟨loaded, undeleted⟩))
  have uncreated : block.name ∉ document.pending.created := fun created =>
    (consistent.created block.name created).2 loaded
  refine List.mem_map_of_mem (List.mem_filter.mpr ⟨membership, ?_⟩)
  simp [uncreated, undeleted]

include consistent in
/-- Without a baseline a save leaves every block as it is written. -/
theorem Document.Consistent.exists_isWrittenIn {settings : Settings} (readable : settings.Readable)
    (counting : settings.counting = .perCharacter) {lines : List Text}
    (laidOut : LaidOut document.loaded.blocks lines)
    (stable : ∀ block ∈ document.outline.blocks, block.Stable) :
    ∃ left, (commit lines document.outline document.pending settings none).Holds left ∧
      ∀ block ∈ left, block.IsWrittenIn
        (commit lines document.outline document.pending settings none).lines settings := by
  have start : (Commit.start lines).Holds document.loaded.blocks := ⟨laidOut, rfl, rfl⟩
  have deleted := start.foldl_delete counting document.pending.deleted.nodup_names
    consistent.deleted
  have untouched : (document.pending.deleted.names.foldl (Commit.delete settings)
      (Commit.start lines)).Writes settings
        (document.loaded.blocks.filter (·.name ∉ document.pending.deleted.names)) [] :=
    ⟨deleted, fun _ _ impossible => absurd impossible List.not_mem_nil⟩
  have remaining : ∀ name, name ∈ (document.loaded.blocks.filter
      (·.name ∉ document.pending.deleted.names)).map Block.name ↔
        name ∈ document.loaded.names ∧ name ∉ document.pending.deleted := by
    intro name
    constructor
    · intro membership
      obtain ⟨old, kept, rfl⟩ := List.mem_map.mp membership
      obtain ⟨loaded, undeleted⟩ := List.mem_filter.mp kept
      exact ⟨List.mem_map_of_mem loaded, of_decide_eq_true undeleted⟩
    · rintro ⟨loaded, undeleted⟩
      obtain ⟨old, membership, rfl⟩ := List.mem_map.mp loaded
      exact List.mem_map_of_mem (List.mem_filter.mpr ⟨membership, decide_eq_true undeleted⟩)
  have stableUpdates : ∀ block ∈ blocksToUpdate document.outline document.pending none,
      block.Stable := fun block membership => stable block (List.mem_filter.mp membership).1
  have stableInsertions : ∀ block ∈ blocksToInsert document.outline document.pending,
      block.Stable := fun block membership => stable block (List.mem_filter.mp membership).1
  obtain ⟨updated, updatedNames, writes⟩ := untouched.foldl_update readable counting stableUpdates
    fun block membership =>
      (remaining block.name).mpr (consistent.name_mem_of_mem_blocksToUpdate membership)
  obtain ⟨left, names, written⟩ := writes.foldl_insert readable counting stableInsertions
    (document.outline.distinct_filter _) fun block membership present => by
      rw [updatedNames, remaining] at present
      exact consistent.name_not_mem_of_mem_blocksToInsert membership present.1
  refine ⟨left, written.holds, fun block membership => written.written block membership ?_⟩
  have named : block.name ∈ left.map Block.name := List.mem_map_of_mem membership
  rw [names, updatedNames, List.mem_append, remaining] at named
  rw [List.nil_append, List.mem_append]
  rcases named with ⟨loaded, undeleted⟩ | inserted
  · exact .inl (consistent.name_mem_blocksToUpdate loaded undeleted)
  · exact .inr inserted

end Save

/-- Saving an edited document, reading it and saving it again changes nothing. -/
theorem commit_saved {document : Document} {lines : List Text} (wellFormed : WellFormed lines)
    {edited : Document} (reached : (document.withLines lines).Edited edited) {settings : Settings}
    (readable : settings.Readable) (counting : settings.counting = .perCharacter)
    (plain : ∀ block ∈ edited.outline.blocks, ∀ entry ∈ block.entries, entry.isWritten = true →
      entry.Plain ∧ Text.stripEnd entry.comment = entry.comment) {saved : List Text}
    (first : (commit lines edited.outline edited.pending settings none).lines = saved) :
    commit saved (Outline.ofLines saved) {} settings none =
        { Commit.start saved with updated := (Outline.ofLines saved).names } ∧
      (commit saved (Outline.ofLines saved) {} settings none).changed = false := by
  obtain ⟨consistent, loaded, -⟩ := reached.invariant (.withLines document lines)
  replace loaded : edited.loaded = Outline.ofLines lines := loaded
  have stable : ∀ block ∈ edited.outline.blocks, block.Stable := fun block membership =>
    ⟨⟨consistent.isName loaded block membership, fun entry present written =>
        (plain block membership entry present written).1⟩,
      fun entry present written => (plain block membership entry present written).2⟩
  have laidOut := wellFormed.laidOut
  rw [← loaded] at laidOut
  obtain ⟨left, holds, written⟩ := consistent.exists_isWrittenIn readable counting laidOut stable
  rw [first] at written
  have read : (Outline.ofLines saved).blocks = left := first ▸ holds.laidOut.blocks_ofLines
  have again : commit saved (Outline.ofLines saved) {} settings none =
      { Commit.start saved with updated := (Outline.ofLines saved).names } := by
    rw [commit_unedited, read, @foldl_update_of_isWrittenIn _ _ (Commit.start saved) written,
      Outline.names, read]
    rfl
  refine ⟨again, ?_⟩
  rw [again]
  simp [Commit.changed, Commit.start]

def commentedDocument : Document where
  path := ⟨.relative, []⟩
  outline := ⟨[⟨['A'], [⟨['X'], [' ', '1'], [' ', 'c']⟩]⟩], by decide⟩
  loaded := Outline.ofLines oneBlock

theorem commit_saved_commentedDocument :
    (commit (commit oneBlock commentedDocument.outline {} {} none).lines
        (Outline.ofLines (commit oneBlock commentedDocument.outline {} {} none).lines) {} {}
        none).changed = false := by
  have replaced : (Document.withLines ⟨⟨.relative, []⟩, {}, .empty, .empty, {}⟩
      oneBlock).replaceEntries ['A'] [⟨['X'], [' ', '1'], [' ', 'c']⟩] =
        .ok commentedDocument := rfl
  have reached := Document.Edited.replaceEntries .first replaced
  refine (commit_saved wellFormed_oneBlock reached Settings.readable_default rfl ?_ rfl).2
  simp only [commentedDocument, List.forall_mem_cons, List.not_mem_nil, false_implies, implies_true,
    and_true]
  intro _
  exact ⟨⟨by decide, by decide, by decide, by decide, by decide, by decide, by decide, by decide⟩,
    by decide⟩

end EnumBlocks
