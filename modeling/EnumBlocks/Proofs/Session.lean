import EnumBlocks.Document.Storage
import EnumBlocks.Proofs.Declaration
import EnumBlocks.Proofs.Outline
import EnumBlocks.Proofs.Text.Utf8

/-!
The states of a document while it is edited. Whatever is added, removed and changed, a name belongs
to a block exactly if it was loaded and is not to be removed, or is to be added.
-/

namespace EnumBlocks

theorem isWord_of_isIdentifierPart {c : Char} (part : isIdentifierPart c = true) :
    Text.isWord c = true := by
  unfold isIdentifierPart at part
  simp [Text.isWord, part]

theorem isWord_of_isIdentifierTail {text : Text} (tail : isIdentifierTail text = true)
    (oneLine : '\n' ∉ text) : ∀ c ∈ text, Text.isWord c = true := by
  induction text with
  | nil => simp
  | cons c rest inductionHypothesis =>
      rw [List.mem_cons, not_or] at oneLine
      unfold isIdentifierTail at tail
      split at tail
      · contradiction
      · rename_i shape
        cases shape
        exact absurd rfl oneLine.1
      · rename_i shape
        cases shape
        rw [Bool.and_eq_true] at tail
        exact List.forall_mem_cons.mpr
          ⟨isWord_of_isIdentifierPart tail.1, inductionHypothesis tail.2 oneLine.2⟩

theorem isName_of_isIdentifier {name : Text} (identifier : isIdentifier name = true)
    (oneLine : '\n' ∉ name) : IsName name := by
  cases name with
  | nil => contradiction
  | cons c rest =>
      rw [List.mem_cons, not_or] at oneLine
      rw [isIdentifier, Bool.and_eq_true] at identifier
      refine ⟨List.cons_ne_nil c rest, List.forall_mem_cons.mpr ⟨?_, ?_⟩⟩
      · apply isWord_of_isIdentifierPart
        have start := identifier.1
        unfold isIdentifierStart at start
        unfold isIdentifierPart Char.isAlphanum
        rw [Bool.or_eq_true] at start
        rcases start with letter | lowLine
        · simp [letter]
        · simp [lowLine]
      · exact isWord_of_isIdentifierTail identifier.2 oneLine.2

section Edit

variable {block edited : Block}

theorem name_take {index : Int} {entry : Entry} (done : block.take index = .ok (entry, edited)) :
    edited.name = block.name := by
  unfold Block.take at done
  split at done
  · contradiction
  · split at done
    · contradiction
    · cases done
      rfl

theorem name_rename {index : Int} {name : Text} (done : block.rename index name = .ok edited) :
    edited.name = block.name := by
  unfold Block.rename at done
  split at done
  · contradiction
  · split at done
    · contradiction
    · split at done
      · cases done
        rfl
      · split at done
        · contradiction
        · split at done
          · contradiction
          · cases done
            rfl

theorem name_move {index offset target : Int}
    (done : block.move index offset = .ok (target, edited)) : edited.name = block.name := by
  unfold Block.move at done
  simp only at done
  split at done
  · cases done
    rfl
  · obtain ⟨⟨entry, rest⟩, taken, equality⟩ := map_eq_ok done
    have kept := name_take taken
    cases equality
    exact kept

theorem name_edit {edit : Edit} {answer : EditAnswer}
    (done : block.edit edit = .ok (answer, edited)) : edited.name = block.name := by
  cases edit with
  | add name value comment =>
      obtain ⟨⟨entry, longer⟩, added, equality⟩ := map_eq_ok done
      cases equality
      unfold Block.add at added
      split at added
      · cases added
        rfl
      · contradiction
  | remove index =>
      obtain ⟨⟨entry, shorter⟩, taken, equality⟩ := map_eq_ok done
      cases equality
      exact name_take taken
  | rename index name =>
      obtain ⟨renamed, carriedOut, equality⟩ := map_eq_ok done
      cases equality
      exact name_rename carriedOut
  | move index offset =>
      obtain ⟨⟨target, moved⟩, carriedOut, equality⟩ := map_eq_ok done
      cases equality
      exact name_move carriedOut

end Edit

namespace Document

variable {document next : Document} {name : Text}

theorem create_eq_ok {block : Block} (done : document.create name = .ok (block, next)) :
    isIdentifier name = true ∧ name ∉ document.outline.names ∧ block.name = name ∧
      next = { document with
        outline := document.outline.put block
        pending :=
          if name ∈ document.pending.deleted then
            { document.pending with deleted := document.pending.deleted.erase name }
          else { document.pending with created := document.pending.created.insert name } } := by
  unfold create at done
  split at done
  · contradiction
  · rename_i identifier
    split at done
    · contradiction
    · rename_i absent
      cases done
      refine ⟨by simpa using identifier, ?_, rfl, rfl⟩
      simpa [Outline.contains] using absent

theorem remove_eq_ok (done : document.remove name = .ok next) :
    name ∈ document.outline.names ∧
      next = { document with
        outline := document.outline.erase name
        pending :=
          if name ∈ document.pending.created then
            { document.pending with created := document.pending.created.erase name }
          else { document.pending with deleted := document.pending.deleted.insert name } } := by
  unfold remove at done
  split at done
  · rename_i present
    cases done
    exact ⟨by simpa [Outline.contains] using present, rfl⟩
  · contradiction

theorem block?_eq_ok {block : Block} (found : document.block? name = .ok block) :
    block ∈ document.outline.blocks ∧ block.name = name := by
  unfold block? at found
  split at found
  · rename_i present
    cases found
    exact Outline.find?_eq_some_iff.mp present
  · contradiction

theorem replaceEntries_eq_ok {entries : List Entry}
    (done : document.replaceEntries name entries = .ok next) :
    ∃ block, block.name ∈ document.outline.names ∧
      next = { document with outline := document.outline.put block } := by
  unfold replaceEntries at done
  cases found : document.block? name with
  | error failure => simp [found, Except.map] at done
  | ok block =>
      rw [found] at done
      cases done
      have present : block.name ∈ document.outline.names :=
        List.mem_map_of_mem (block?_eq_ok found).1
      exact ⟨{ block with entries := entries }, present, rfl⟩

theorem editBlock_eq_ok {edit : Edit} {answer : EditAnswer}
    (done : document.editBlock name edit = .ok (answer, next)) :
    ∃ block, block.name ∈ document.outline.names ∧
      next = { document with outline := document.outline.put block } := by
  unfold editBlock at done
  split at done
  · contradiction
  · rename_i block found
    split at done
    · contradiction
    · rename_i edited carriedOut
      cases done
      refine ⟨edited, ?_, rfl⟩
      rw [name_edit carriedOut]
      exact List.mem_map_of_mem (block?_eq_ok found).1

/-- The states that a document can come to, from a first one, by adding and removing blocks and by
editing their entries. New names are on one line. -/
inductive Edited (first : Document) : Document → Prop where
  | first : Edited first first
  | create {document next : Document} {name : Text} {block : Block}
      (earlier : Edited first document) (oneLine : '\n' ∉ name)
      (done : document.create name = .ok (block, next)) : Edited first next
  | remove {document next : Document} {name : Text} (earlier : Edited first document)
      (done : document.remove name = .ok next) : Edited first next
  | replaceEntries {document next : Document} {name : Text} {entries : List Entry}
      (earlier : Edited first document)
      (done : document.replaceEntries name entries = .ok next) : Edited first next
  | editBlock {document next : Document} {name : Text} {edit : Edit} {answer : EditAnswer}
      (earlier : Edited first document)
      (done : document.editBlock name edit = .ok (answer, next)) : Edited first next

/-- Whether a document keeps track of how the names of its blocks differ from those that were loaded:
it has the loaded ones that are not to be removed, and those that are to be added. -/
structure Tracks (document : Document) : Prop where
  created : ∀ name ∈ document.pending.created, name ∉ document.loaded.names
  deleted : ∀ name ∈ document.pending.deleted, name ∈ document.loaded.names
  names : ∀ name, name ∈ document.outline.names ↔
    (name ∈ document.loaded.names ∧ name ∉ document.pending.deleted) ∨
      name ∈ document.pending.created

namespace Tracks

variable (tracks : document.Tracks)

theorem withLines (document : Document) (lines : List Text) :
    (document.withLines lines).Tracks where
  created := by simp [Document.withLines]
  deleted := by simp [Document.withLines]
  names := by simp [Document.withLines]

include tracks in
theorem create {block : Block} (done : document.create name = .ok (block, next)) :
    next.Tracks := by
  obtain ⟨-, absent, rfl, rfl⟩ := create_eq_ok done
  have split := tracks.names block.name
  -- A block that was to be removed and comes back is an old one, not one to add.
  by_cases returned : block.name ∈ document.pending.deleted
  · refine ⟨?_, ?_, ?_⟩
    · simpa [returned] using tracks.created
    · intro other membership
      simp only [returned, if_true, NameSet.mem_erase] at membership
      exact tracks.deleted other membership.1
    · intro other
      have loaded := tracks.deleted block.name returned
      simp only [returned, if_true, Outline.mem_names_put, NameSet.mem_erase, tracks.names]
      by_cases same : other = block.name
      · subst same
        simp [loaded]
      · simp [same]
  · have unknown : block.name ∉ document.loaded.names := fun loaded =>
      absent (split.mpr (.inl ⟨loaded, returned⟩))
    refine ⟨?_, ?_, ?_⟩
    · intro other membership
      simp only [returned, if_false, NameSet.mem_insert] at membership
      rcases membership with rfl | old
      · exact unknown
      · exact tracks.created other old
    · simpa [returned] using tracks.deleted
    · intro other
      simp only [returned, if_false, Outline.mem_names_put, NameSet.mem_insert, tracks.names]
      tauto

include tracks in
theorem remove (done : document.remove name = .ok next) : next.Tracks := by
  obtain ⟨present, rfl⟩ := remove_eq_ok done
  have split := (tracks.names name).mp present
  by_cases new : name ∈ document.pending.created
  · have unknown := tracks.created name new
    refine ⟨?_, ?_, ?_⟩
    · intro other membership
      simp only [new, if_true, NameSet.mem_erase] at membership
      exact tracks.created other membership.1
    · simpa [new] using tracks.deleted
    · intro other
      simp only [new, if_true, Outline.mem_names_erase, NameSet.mem_erase, tracks.names]
      by_cases same : other = name
      · subst same
        simp [unknown]
      · simp [same]
  · have loaded := (split.resolve_right new).1
    refine ⟨?_, ?_, ?_⟩
    · simpa [new] using tracks.created
    · intro other membership
      simp only [new, if_false, NameSet.mem_insert] at membership
      rcases membership with rfl | old
      · exact loaded
      · exact tracks.deleted other old
    · intro other
      simp only [new, if_false, Outline.mem_names_erase, NameSet.mem_insert, tracks.names]
      by_cases same : other = name
      · subst same
        simp [new]
      · simp [same]

include tracks in
theorem put {block : Block} (present : block.name ∈ document.outline.names) :
    Tracks { document with outline := document.outline.put block } := by
  refine ⟨tracks.created, tracks.deleted, ?_⟩
  intro other
  simp only [Outline.names_put, if_pos present]
  exact tracks.names other

end Tracks

/-- Whether the names of the blocks are those that were loaded and are not to be removed, and those
that are to be added. -/
structure Consistent (document : Document) : Prop where
  created : ∀ name ∈ document.pending.created, IsName name ∧ name ∉ document.loaded.names
  deleted : ∀ name ∈ document.pending.deleted, name ∈ document.loaded.names
  names : ∀ name, name ∈ document.outline.names ↔
    (name ∈ document.loaded.names ∧ name ∉ document.pending.deleted) ∨
      name ∈ document.pending.created

theorem consistent_iff :
    document.Consistent ↔
      document.Tracks ∧ ∀ name ∈ document.pending.created, IsName name := by
  constructor
  · intro consistent
    exact ⟨⟨fun name created => (consistent.created name created).2, consistent.deleted,
      consistent.names⟩, fun name created => (consistent.created name created).1⟩
  · rintro ⟨tracks, named⟩
    exact ⟨fun name created => ⟨named name created, tracks.created name created⟩, tracks.deleted,
      tracks.names⟩

namespace Consistent

variable (consistent : document.Consistent)

theorem withLines (document : Document) (lines : List Text) :
    (document.withLines lines).Consistent :=
  consistent_iff.mpr ⟨.withLines document lines, by simp [Document.withLines]⟩

include consistent in
theorem create {block : Block} (oneLine : '\n' ∉ name)
    (done : document.create name = .ok (block, next)) : next.Consistent := by
  obtain ⟨tracks, named⟩ := consistent_iff.mp consistent
  refine consistent_iff.mpr ⟨tracks.create done, ?_⟩
  obtain ⟨identifier, -, -, rfl⟩ := create_eq_ok done
  intro other membership
  by_cases returned : name ∈ document.pending.deleted
  · simp only [returned, if_true] at membership
    exact named other membership
  · simp only [returned, if_false, NameSet.mem_insert] at membership
    rcases membership with rfl | old
    · exact isName_of_isIdentifier identifier oneLine
    · exact named other old

include consistent in
theorem remove (done : document.remove name = .ok next) : next.Consistent := by
  obtain ⟨tracks, named⟩ := consistent_iff.mp consistent
  refine consistent_iff.mpr ⟨tracks.remove done, ?_⟩
  obtain ⟨-, rfl⟩ := remove_eq_ok done
  intro other membership
  by_cases new : name ∈ document.pending.created
  · simp only [new, if_true, NameSet.mem_erase] at membership
    exact named other membership.1
  · simp only [new, if_false] at membership
    exact named other membership

include consistent in
theorem put {block : Block} (present : block.name ∈ document.outline.names) :
    Consistent { document with outline := document.outline.put block } := by
  obtain ⟨tracks, named⟩ := consistent_iff.mp consistent
  exact consistent_iff.mpr ⟨tracks.put present, named⟩

end Consistent

/-- Every state that a loaded document comes to is consistent, and keeps what was loaded and the
settings. -/
theorem Edited.invariant {first : Document} (consistent : first.Consistent)
    (edited : Edited first document) :
    document.Consistent ∧ document.loaded = first.loaded ∧ document.settings = first.settings := by
  induction edited with
  | first => exact ⟨consistent, rfl, rfl⟩
  | create earlier oneLine done inductionHypothesis =>
      rcases inductionHypothesis with ⟨sound, loaded, settings⟩
      refine ⟨sound.create oneLine done, ?_⟩
      obtain ⟨-, -, -, rfl⟩ := create_eq_ok done
      exact ⟨loaded, settings⟩
  | remove earlier done inductionHypothesis =>
      rcases inductionHypothesis with ⟨sound, loaded, settings⟩
      refine ⟨sound.remove done, ?_⟩
      obtain ⟨-, rfl⟩ := remove_eq_ok done
      exact ⟨loaded, settings⟩
  | replaceEntries earlier done inductionHypothesis =>
      rcases inductionHypothesis with ⟨sound, loaded, settings⟩
      obtain ⟨block, present, rfl⟩ := replaceEntries_eq_ok done
      exact ⟨sound.put present, loaded, settings⟩
  | editBlock earlier done inductionHypothesis =>
      rcases inductionHypothesis with ⟨sound, loaded, settings⟩
      obtain ⟨block, present, rfl⟩ := editBlock_eq_ok done
      exact ⟨sound.put present, loaded, settings⟩

end Document

end EnumBlocks
