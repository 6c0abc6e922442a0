import EnumBlocks.Outline.Reader
import Mathlib.Data.List.Basic
import Mathlib.Data.List.Induction

/-!
Outlines as finite maps: which block a name belongs to, and what an outline holds that was built
from blocks one after the other.
-/

namespace EnumBlocks

theorem find?_name_of_mem {blocks : List Block} (distinct : (blocks.map Block.name).Nodup)
    {block : Block} (membership : block ∈ blocks) :
    blocks.find? (·.name == block.name) = some block := by
  obtain ⟨before, after, rfl⟩ := List.append_of_mem membership
  rw [List.map_append, List.nodup_append] at distinct
  have absent : before.find? (·.name == block.name) = none := by
    rw [List.find?_eq_none]
    intro other earlier
    rw [beq_iff_eq]
    intro same
    exact distinct.2.2 _ (List.mem_map_of_mem earlier) _ (by simp) same
  rw [List.find?_append, absent, List.find?_cons_of_pos (by simp)]
  rfl

theorem eq_singleton_of_mem_iff {blocks : List Block} {block : Block}
    (distinct : (blocks.map Block.name).Nodup) (only : ∀ other, other ∈ blocks ↔ other = block) :
    blocks = [block] := by
  cases blocks with
  | nil => exact absurd ((only block).mpr rfl) List.not_mem_nil
  | cons first rest =>
      obtain rfl := (only first).mp List.mem_cons_self
      cases rest with
      | nil => rfl
      | cons next others =>
          obtain rfl := (only next).mp (List.mem_cons_of_mem first List.mem_cons_self)
          simp at distinct

theorem replaceBlock_of_absent {block : Block} {blocks : List Block}
    (absent : block.name ∉ blocks.map Block.name) : replaceBlock block blocks = blocks := by
  rw [replaceBlock]
  conv_rhs => rw [← List.map_id' blocks]
  refine List.map_congr_left fun old membership => ?_
  rw [if_neg]
  intro same
  exact absent (same ▸ List.mem_map_of_mem membership)

namespace Outline

variable {outline : Outline} {name : Text} {block : Block}

theorem eq_of_blocks_eq {other : Outline} (blocks : outline.blocks = other.blocks) :
    outline = other := by
  cases outline
  cases other
  cases blocks
  rfl

theorem find?_eq_some_iff :
    outline.find? name = some block ↔ block ∈ outline.blocks ∧ block.name = name := by
  constructor
  · intro found
    have same := List.find?_some found
    rw [beq_iff_eq] at same
    exact ⟨List.mem_of_find?_eq_some found, same⟩
  · rintro ⟨membership, rfl⟩
    exact find?_name_of_mem outline.distinct membership

theorem eq_of_name_eq {other : Block} (membership : block ∈ outline.blocks)
    (otherMembership : other ∈ outline.blocks) (same : other.name = block.name) :
    other = block := by
  have found := find?_name_of_mem outline.distinct otherMembership
  rw [same, find?_name_of_mem outline.distinct membership] at found
  exact (Option.some.inj found).symm

theorem distinct_filter (outline : Outline) (keep : Block → Bool) :
    ((outline.blocks.filter keep).map Block.name).Nodup :=
  outline.distinct.sublist (List.filter_sublist.map Block.name)

theorem mem_names_iff : name ∈ outline.names ↔ ∃ block, outline.find? name = some block := by
  unfold names
  rw [List.mem_map]
  constructor
  · rintro ⟨block, membership⟩
    exact ⟨block, find?_eq_some_iff.mpr membership⟩
  · rintro ⟨block, found⟩
    exact ⟨block, find?_eq_some_iff.mp found⟩

theorem mem_blocks_put {added : Block} :
    block ∈ (outline.put added).blocks ↔
      block = added ∨ block ∈ outline.blocks ∧ block.name ≠ added.name := by
  unfold put
  split
  · rename_i present
    constructor
    · intro membership
      obtain ⟨old, found, equality⟩ := List.mem_map.mp membership
      split at equality
      · exact .inl equality.symm
      · rename_i other
        exact .inr ⟨equality ▸ found, equality ▸ other⟩
    · rintro (rfl | ⟨found, other⟩)
      · obtain ⟨old, found, named⟩ := List.mem_map.mp present
        exact List.mem_map.mpr ⟨old, found, if_pos named⟩
      · exact List.mem_map.mpr ⟨block, found, if_neg other⟩
  · rename_i absent
    rw [List.mem_append, List.mem_singleton, or_comm]
    refine or_congr_right (iff_self_and.mpr ?_)
    intro found same
    exact absent (same ▸ List.mem_map_of_mem found)

theorem blocks_put_of_mem {added : Block} (present : added.name ∈ outline.names) :
    (outline.put added).blocks = replaceBlock added outline.blocks := by
  rw [put, dif_pos present]

theorem blocks_put_of_not_mem {added : Block} (absent : added.name ∉ outline.names) :
    (outline.put added).blocks = outline.blocks ++ [added] := by
  rw [put, dif_neg absent]

theorem names_put_of_mem {added : Block} (present : added.name ∈ outline.names) :
    (outline.put added).names = outline.names := by
  rw [names_put, if_pos present]

theorem put_put {first second : Block} (same : first.name = second.name) :
    (outline.put first).put second = outline.put second := by
  have present : second.name ∈ (outline.put first).names := mem_names_put.mpr (.inr same.symm)
  apply eq_of_blocks_eq
  rw [blocks_put_of_mem present]
  by_cases old : second.name ∈ outline.names
  · rw [blocks_put_of_mem (same ▸ old), blocks_put_of_mem old, replaceBlock, replaceBlock,
      List.map_map]
    refine List.map_congr_left fun block _ => ?_
    by_cases named : block.name = second.name <;> simp [named, same]
  · have kept := replaceBlock_of_absent old
    unfold replaceBlock at kept ⊢
    rw [blocks_put_of_not_mem (same ▸ old), blocks_put_of_not_mem old, List.map_append, kept]
    simp [same]

theorem find?_put (outline : Outline) (added : Block) (name : Text) :
    (outline.put added).find? name =
      if added.name = name then some added else outline.find? name := by
  apply Option.ext
  intro block
  rw [find?_eq_some_iff, mem_blocks_put]
  by_cases named : added.name = name
  · subst named
    rw [if_pos rfl, Option.some.injEq]
    constructor
    · rintro ⟨new | ⟨-, other⟩, same⟩
      · exact new.symm
      · contradiction
    · rintro rfl
      exact ⟨.inl rfl, rfl⟩
  · rw [if_neg named, find?_eq_some_iff]
    constructor
    · rintro ⟨rfl | ⟨found, -⟩, same⟩
      · contradiction
      · exact ⟨found, same⟩
    · rintro ⟨found, rfl⟩
      exact ⟨.inr ⟨found, Ne.symm named⟩, rfl⟩

theorem mem_blocks_foldl_put {blocks : List Block}
    (membership : block ∈ (blocks.foldl put outline).blocks) :
    block ∈ outline.blocks ∨ block ∈ blocks := by
  induction blocks generalizing outline with
  | nil => exact .inl membership
  | cons first rest inductionHypothesis =>
      rcases inductionHypothesis membership with early | late
      · rcases mem_blocks_put.mp early with new | ⟨old, -⟩
        · exact .inr (by simp [new])
        · exact .inl old
      · exact .inr (List.mem_cons_of_mem first late)

theorem mem_names_foldl_put {blocks : List Block} :
    name ∈ (blocks.foldl put outline).names ↔
      name ∈ outline.names ∨ name ∈ blocks.map Block.name := by
  induction blocks generalizing outline with
  | nil => simp
  | cons first rest inductionHypothesis =>
      rw [List.foldl_cons, inductionHypothesis, mem_names_put, List.map_cons, List.mem_cons,
        or_assoc]

theorem filterMap_find?_names (outline : Outline) :
    outline.names.filterMap outline.find? = outline.blocks := by
  have each : ∀ block ∈ outline.blocks, outline.find? block.name = some block :=
    fun block membership => find?_eq_some_iff.mpr ⟨membership, rfl⟩
  rw [names, List.filterMap_map]
  exact (List.filterMap_congr each).trans List.filterMap_some

/-- An outline is known by its names, in order, and by the block that each of them has. -/
theorem ext_of_find? {outline other : Outline} (names : outline.names = other.names)
    (found : ∀ name, outline.find? name = other.find? name) : outline = other := by
  apply eq_of_blocks_eq
  rw [← filterMap_find?_names outline, ← filterMap_find?_names other, names, funext found]

theorem put_of_mem (present : block ∈ outline.blocks) :
    outline.put block = outline := by
  refine ext_of_find? ?_ fun name => ?_
  · exact names_put_of_mem (List.mem_map_of_mem present)
  · rw [find?_put]
    split
    · rename_i same
      exact (find?_eq_some_iff.mpr ⟨present, same⟩).symm
    · rfl

theorem names_foldl_put (blocks : List Block) (outline : Outline) :
    (blocks.foldl put outline).names = (blocks.map Block.name).foldl
      (fun names name => if name ∈ names then names else names ++ [name]) outline.names := by
  induction blocks generalizing outline with
  | nil => rfl
  | cons block rest inductionHypothesis =>
      rw [List.foldl_cons, inductionHypothesis, names_put, List.map_cons, List.foldl_cons]

end Outline

theorem mem_of_mem_blocks_ofBlocks {blocks : List Block} {block : Block}
    (membership : block ∈ (Outline.ofBlocks blocks).blocks) : block ∈ blocks := by
  rcases Outline.mem_blocks_foldl_put membership with impossible | found
  · contradiction
  · exact found

theorem mem_names_ofBlocks {blocks : List Block} {name : Text} :
    name ∈ (Outline.ofBlocks blocks).names ↔ name ∈ blocks.map Block.name := by
  rw [Outline.ofBlocks, Outline.mem_names_foldl_put]
  simp [Outline.names, Outline.empty]

theorem names_ofBlocks_congr {blocks others : List Block}
    (same : blocks.map Block.name = others.map Block.name) :
    (Outline.ofBlocks blocks).names = (Outline.ofBlocks others).names := by
  rw [Outline.ofBlocks, Outline.ofBlocks, Outline.names_foldl_put, Outline.names_foldl_put, same]

theorem ofBlocks_concat (blocks : List Block) (block : Block) :
    Outline.ofBlocks (blocks ++ [block]) = (Outline.ofBlocks blocks).put block := by
  rw [Outline.ofBlocks, List.foldl_append]
  rfl

/-- Of blocks with one name, an outline that is built from them has the last. -/
theorem find?_ofBlocks (blocks : List Block) (name : Text) :
    (Outline.ofBlocks blocks).find? name = blocks.findRev? (·.name == name) := by
  rw [List.findRev?_eq_find?_reverse]
  induction blocks using List.reverseRecOn with
  | nil => rfl
  | append_singleton earlier block inductionHypothesis =>
      rw [ofBlocks_concat, Outline.find?_put, inductionHypothesis, List.reverse_concat]
      by_cases named : block.name = name
      · rw [if_pos named, List.find?_cons_of_pos (by simpa using named)]
      · rw [if_neg named, List.find?_cons_of_neg (by simpa using named)]

theorem blocks_foldl_put {blocks : List Block} {outline : Outline}
    (distinct : ((outline.blocks ++ blocks).map Block.name).Nodup) :
    (blocks.foldl Outline.put outline).blocks = outline.blocks ++ blocks := by
  induction blocks generalizing outline with
  | nil => simp
  | cons block rest inductionHypothesis =>
      have fresh : block.name ∉ outline.names := by
        intro present
        rw [List.map_append, List.nodup_append] at distinct
        exact distinct.2.2 _ present _ (by simp) rfl
      have added := Outline.blocks_put_of_not_mem fresh
      rw [List.foldl_cons, inductionHypothesis (by simpa [added] using distinct), added,
        List.append_assoc]
      rfl

theorem blocks_ofBlocks {blocks : List Block} (distinct : (blocks.map Block.name).Nodup) :
    (Outline.ofBlocks blocks).blocks = blocks :=
  @blocks_foldl_put blocks .empty distinct

end EnumBlocks
