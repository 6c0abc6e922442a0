import EnumBlocks.Commit
import EnumBlocks.Proofs.Rewriting

/-!
Saving into a document in which every block stands apart. Every removal, replacement and addition
succeeds, and the document is left with the blocks that were meant.
-/

namespace EnumBlocks

/-- The block that takes the place of an old one: what the replacement of its name is read back as,
if there is one. -/
def revised (updates : List Block) (old : Block) : Block :=
  match updates.find? (·.name == old.name) with
  | some block => block.readBack
  | none => old

theorem name_revised (updates : List Block) (old : Block) :
    (revised updates old).name = old.name := by
  unfold revised
  split
  · rename_i block found
    have same := List.find?_some found
    rw [beq_iff_eq] at same
    exact same
  · rfl

theorem map_name_revised (updates blocks : List Block) :
    (blocks.map (revised updates)).map Block.name = blocks.map Block.name := by
  rw [List.map_map]
  exact List.map_congr_left fun old _ => name_revised updates old

theorem map_revised_cons {block : Block} {rest : List Block}
    (fresh : block.name ∉ rest.map Block.name) (blocks : List Block) :
    (replaceBlock block.readBack blocks).map (revised rest) =
      blocks.map (revised (block :: rest)) := by
  rw [replaceBlock, List.map_map]
  refine List.map_congr_left fun old _ => ?_
  simp only [Function.comp_apply]
  split
  · rename_i same
    have absent : rest.find? (·.name == block.readBack.name) = none := by
      rw [List.find?_eq_none]
      intro other membership
      rw [beq_iff_eq]
      intro equality
      exact fresh (List.mem_map.mpr ⟨other, membership, equality⟩)
    have found : (block :: rest).find? (·.name == old.name) = some block := by
      rw [List.find?_cons_of_pos]
      rw [beq_iff_eq]
      exact same.symm
    rw [revised, absent, revised, found]
  · rename_i different
    have skipped : (block :: rest).find? (·.name == old.name) =
        rest.find? (·.name == old.name) := by
      rw [List.find?_cons_of_neg]
      rw [beq_iff_eq]
      exact fun equality => different equality.symm
    rw [revised, revised, skipped]

theorem filter_name_of_absent {name : Text} {blocks : List Block}
    (absent : name ∉ blocks.map Block.name) : blocks.filter (·.name ≠ name) = blocks := by
  rw [List.filter_eq_self]
  intro block membership
  rw [decide_eq_true_eq]
  intro same
  exact absent (same ▸ List.mem_map_of_mem membership)

theorem NameSet.nodup_names (set : NameSet) : set.names.Nodup := by
  refine List.Pairwise.imp ?_ set.ordered
  rintro first second smaller rfl
  exact List.lt_irrefl first smaller

/-- Whether a document has the given blocks and nothing has gone wrong so far. -/
structure Commit.Holds (commit : Commit) (blocks : List Block) : Prop where
  laidOut : LaidOut blocks commit.lines
  missing : commit.missing = []
  errors : commit.errors = []

namespace Commit.Holds

variable {settings : Settings} (counting : settings.counting = .perCharacter) {blocks : List Block}
  {commit : Commit} (holds : commit.Holds blocks)

include counting holds in
theorem delete {name : Text} (present : name ∈ blocks.map Block.name) :
    (commit.delete settings name).Holds (blocks.filter (·.name ≠ name)) := by
  obtain ⟨old, membership, rfl⟩ := List.mem_map.mp present
  obtain ⟨before, after, rfl⟩ := List.append_of_mem membership
  rcases holds.laidOut.apart with ⟨-, earlier, later⟩
  obtain ⟨splice, removed, laidOut⟩ := holds.laidOut.remove counting
  have rest : (before ++ old :: after).filter (·.name ≠ old.name) = before ++ after := by
    rw [List.filter_append, List.filter_cons_of_neg (by simp), filter_name_of_absent earlier,
      filter_name_of_absent later]
  rw [Commit.delete, removed, rest]
  exact ⟨laidOut, holds.missing, holds.errors⟩

include counting holds in
theorem update (readable : settings.Readable) {block : Block} (plain : block.Plain)
    (present : block.name ∈ blocks.map Block.name) :
    (commit.update settings block).Holds (replaceBlock block.readBack blocks) := by
  obtain ⟨old, membership, same⟩ := List.mem_map.mp present
  obtain ⟨before, after, rfl⟩ := List.append_of_mem membership
  rcases holds.laidOut.apart with ⟨-, earlier, later⟩
  obtain ⟨splice, replaced, laidOut⟩ := holds.laidOut.replace readable counting plain same.symm
  have changed : replaceBlock block.readBack (before ++ old :: after) =
      before ++ block.readBack :: after := by
    have own : old.name = block.readBack.name := same
    rw [own] at earlier later
    have front := replaceBlock_of_absent earlier
    have back := replaceBlock_of_absent later
    unfold replaceBlock at front back ⊢
    rw [List.map_append, List.map_cons, if_pos own, front, back]
  rw [Commit.update, replaced, changed]
  exact ⟨laidOut, holds.missing, holds.errors⟩

include holds in
theorem insert (readable : settings.Readable) {block : Block} (plain : block.Plain)
    (absent : block.name ∉ blocks.map Block.name) :
    (commit.insert settings block).Holds (blocks ++ [block.readBack]) := by
  obtain ⟨splice, added, laidOut⟩ := holds.laidOut.insert readable plain absent
  rw [Commit.insert, added]
  exact ⟨laidOut, holds.missing, holds.errors⟩

include counting holds in
theorem foldl_delete {names : List Text} (distinct : names.Nodup)
    (present : ∀ name ∈ names, name ∈ blocks.map Block.name) :
    (names.foldl (Commit.delete settings) commit).Holds (blocks.filter (·.name ∉ names)) := by
  induction names generalizing commit blocks with
  | nil => simpa using holds
  | cons name rest inductionHypothesis =>
      rw [List.nodup_cons] at distinct
      rw [List.forall_mem_cons] at present
      have next := holds.delete counting present.1
      have remaining : ∀ other ∈ rest, other ∈ (blocks.filter (·.name ≠ name)).map Block.name := by
        intro other membership
        obtain ⟨block, old, rfl⟩ := List.mem_map.mp (present.2 other membership)
        refine List.mem_map_of_mem (List.mem_filter.mpr ⟨old, ?_⟩)
        rw [decide_eq_true_eq]
        intro same
        exact distinct.1 (same ▸ membership)
      have result := inductionHypothesis next distinct.2 remaining
      rw [List.filter_filter] at result
      rw [List.foldl_cons]
      have same : (fun block : Block => decide (block.name ∉ name :: rest)) =
          fun block => decide (block.name ∉ rest) && decide (block.name ≠ name) := by
        funext block
        simp [Bool.and_comm]
      rw [same]
      exact result

include counting holds in
theorem foldl_update (readable : settings.Readable) {updates : List Block}
    (plain : ∀ block ∈ updates, block.Plain) (distinct : (updates.map Block.name).Nodup)
    (present : ∀ block ∈ updates, block.name ∈ blocks.map Block.name) :
    (updates.foldl (Commit.update settings) commit).Holds (blocks.map (revised updates)) := by
  induction updates generalizing commit blocks with
  | nil =>
      have kept : blocks.map (revised []) = blocks := by
        conv_rhs => rw [← List.map_id' blocks]
        rfl
      rw [kept]
      exact holds
  | cons block rest inductionHypothesis =>
      rw [List.map_cons, List.nodup_cons] at distinct
      rw [List.forall_mem_cons] at plain present
      have next := holds.update counting readable plain.1 present.1
      rw [List.foldl_cons, ← map_revised_cons distinct.1]
      refine inductionHypothesis next plain.2 distinct.2 fun other membership => ?_
      rw [map_name_replaceBlock]
      exact present.2 other membership

include holds in
theorem foldl_insert (readable : settings.Readable) {insertions : List Block}
    (plain : ∀ block ∈ insertions, block.Plain) (distinct : (insertions.map Block.name).Nodup)
    (absent : ∀ block ∈ insertions, block.name ∉ blocks.map Block.name) :
    (insertions.foldl (Commit.insert settings) commit).Holds
      (blocks ++ insertions.map Block.readBack) := by
  induction insertions generalizing commit blocks with
  | nil => simpa using holds
  | cons block rest inductionHypothesis =>
      rw [List.map_cons, List.nodup_cons] at distinct
      rw [List.forall_mem_cons] at plain absent
      have next := holds.insert readable plain.1 absent.1
      rw [List.foldl_cons, List.map_cons, List.append_cons]
      refine inductionHypothesis next plain.2 distinct.2 fun other membership => ?_
      rw [List.map_append, List.mem_append, List.map_singleton, List.mem_singleton, not_or]
      refine ⟨absent.2 other membership, ?_⟩
      intro same
      exact distinct.1 (List.mem_map.mpr ⟨other, membership, same⟩)

end Commit.Holds

/-- The document that a save leaves, where every block to remove or replace is there and no block to
add is. -/
theorem commit_holds {settings : Settings} (readable : settings.Readable)
    (counting : settings.counting = .perCharacter) {blocks : List Block} {lines : List Text}
    (laidOut : LaidOut blocks lines) {outline : Outline} {pending : Pending}
    {baseline : Option Outline} (plain : ∀ block ∈ outline.blocks, block.Plain)
    (deletions : ∀ name ∈ pending.deleted, name ∈ blocks.map Block.name)
    (updates : ∀ block ∈ blocksToUpdate outline pending baseline,
      block.name ∈ blocks.map Block.name)
    (insertions : ∀ block ∈ blocksToInsert outline pending, block.name ∉ blocks.map Block.name) :
    (commit lines outline pending settings baseline).Holds
      ((blocks.filter (·.name ∉ pending.deleted)).map
          (revised (blocksToUpdate outline pending baseline)) ++
        (blocksToInsert outline pending).map Block.readBack) := by
  have start : (Commit.start lines).Holds blocks := ⟨laidOut, rfl, rfl⟩
  rw [commit]
  refine Commit.Holds.foldl_insert (Commit.Holds.foldl_update counting
    (start.foldl_delete counting pending.deleted.nodup_names deletions) readable
    (fun block membership => plain block (List.mem_filter.mp membership).1)
    (outline.distinct_filter _) ?_) readable
    (fun block membership => plain block (List.mem_filter.mp membership).1)
    (outline.distinct_filter _) ?_
  · intro block membership
    obtain ⟨old, present, same⟩ := List.mem_map.mp (updates block membership)
    have kept := (List.mem_filter.mp membership).2
    simp only [Bool.and_eq_true, decide_eq_true_eq] at kept
    rw [← same] at kept ⊢
    refine List.mem_map_of_mem (List.mem_filter.mpr ⟨present, ?_⟩)
    rw [decide_eq_true_eq]
    exact kept.1.2
  · intro block membership
    rw [map_name_revised]
    intro present
    obtain ⟨old, stillThere, same⟩ := List.mem_map.mp present
    exact insertions block membership
      (same ▸ List.mem_map_of_mem (List.mem_filter.mp stillThere).1)

end EnumBlocks
