import EnumBlocks.Proofs.Naming
import Mathlib.Data.List.InsertIdx

/-!
The entries that positions name, and what taking, naming and moving them comes to: an entry stands
between two parts of its block, and what is done to it leaves these as they are. A move ends within
the block, whatever the offset, and a move back leaves the block as it was.
-/

namespace EnumBlocks

theorem position?_eq_some_iff {size : Nat} {index : Int} {place : Nat} :
    position? size index = some place ↔
      place < size ∧ (index = place ∨ index = (place : Int) - size) := by
  by_cases negative : index < 0
  · simp only [position?, if_pos negative, Option.ite_none_right_eq_some, Option.some.injEq]
    omega
  · simp only [position?, if_neg negative, Option.ite_none_right_eq_some, Option.some.injEq]
    omega

theorem insertIdx_length_append {α : Type} (front back : List α) (value : α) :
    (front ++ back).insertIdx front.length value = front ++ value :: back := by
  induction front with
  | nil => rfl
  | cons first rest inductionHypothesis => exact congrArg (first :: ·) inductionHypothesis

namespace Block

/-- Whether a position names the entry between two parts of a block. A position counts the entries
in front of it or, if it is negative, those from it on. -/
structure HasAt (block : Block) (index : Int) (front : List Entry) (entry : Entry)
    (back : List Entry) : Prop where
  entries : block.entries = front ++ entry :: back
  index : index = front.length ∨ index = -(back.length + 1 : Int)

variable {block : Block} {index : Int} {front back : List Entry} {entry : Entry}

namespace HasAt

variable (has : block.HasAt index front entry back)

include has

theorem length_entries : block.entries.length = front.length + (back.length + 1) := by
  rw [has.entries, List.length_append, List.length_cons]

theorem position?_eq : position? block.entries.length index = some front.length := by
  have size := has.length_entries
  have counted := has.index
  apply position?_eq_some_iff.mpr
  omega

theorem getElem?_eq : block.entries[front.length]? = some entry := by
  rw [has.entries, List.getElem?_append_right le_rfl, Nat.sub_self, List.getElem?_cons_zero]

theorem eraseIdx_eq : block.entries.eraseIdx front.length = front ++ back := by
  rw [has.entries, List.eraseIdx_append_of_length_le le_rfl, Nat.sub_self, List.eraseIdx_cons_zero]

theorem set_eq (other : Entry) :
    block.entries.set front.length other = front ++ other :: back := by
  rw [has.entries, List.set_append_right _ _ le_rfl, Nat.sub_self, List.set_cons_zero]

theorem hasOther_eq (name : Text) :
    block.hasOther front.length name = decide (name ∈ (front ++ back).map Entry.name) := by
  rw [hasOther, entryNames, List.eraseIdx_map, has.eraseIdx_eq]

end HasAt

theorem hasAt_take_drop {place : Nat} (inside : place < block.entries.length)
    (counted : index = place ∨ index = (place : Int) - block.entries.length) :
    block.HasAt index (block.entries.take place) block.entries[place]
      (block.entries.drop (place + 1)) := by
  have before : (block.entries.take place).length = place := List.length_take_of_le inside.le
  have behind : (block.entries.drop (place + 1)).length = block.entries.length - (place + 1) :=
    List.length_drop
  constructor
  · rw [List.cons_getElem_drop_succ, List.take_append_drop]
  · omega

theorem exists_hasAt_of_position? {place : Nat}
    (named : position? block.entries.length index = some place) :
    ∃ front entry back, block.HasAt index front entry back ∧ front.length = place := by
  obtain ⟨inside, counted⟩ := position?_eq_some_iff.mp named
  exact ⟨_, _, _, hasAt_take_drop inside counted, List.length_take_of_le inside.le⟩

/-- Taking an entry leaves the others in their order. -/
theorem take_eq_ok_iff {rest : Block} :
    block.take index = .ok (entry, rest) ↔
      ∃ front back, block.HasAt index front entry back ∧
        rest = { block with entries := front ++ back } := by
  constructor
  · intro taken
    unfold take at taken
    split at taken
    · contradiction
    · rename_i place named
      obtain ⟨front, other, back, has, rfl⟩ := exists_hasAt_of_position? named
      rw [has.getElem?_eq, has.eraseIdx_eq] at taken
      cases taken
      exact ⟨front, back, has, rfl⟩
  · rintro ⟨front, back, has, rfl⟩
    rw [take, has.position?_eq]
    simp only [has.getElem?_eq, has.eraseIdx_eq]

/-- Naming an entry changes its name and nothing else. The name is its own, or an identifier that no
other entry has. -/
theorem rename_eq_ok_iff {name : Text} {renamed : Block} :
    block.rename index name = .ok renamed ↔
      ∃ front entry back, block.HasAt index front entry back ∧
        (name = entry.name ∨ isIdentifier name = true ∧ name ∉ (front ++ back).map Entry.name) ∧
        renamed = { block with entries := front ++ { entry with name := name } :: back } := by
  constructor
  · intro done
    unfold rename at done
    split at done
    · contradiction
    · rename_i place named
      obtain ⟨front, entry, back, has, rfl⟩ := exists_hasAt_of_position? named
      simp only [has.getElem?_eq, has.hasOther_eq, has.set_eq] at done
      refine ⟨front, entry, back, has, ?_⟩
      split at done
      · rename_i own
        cases done
        subst own
        exact ⟨.inl rfl, by rw [← has.entries]⟩
      · split at done
        · contradiction
        · rename_i identifier
          split at done
          · contradiction
          · rename_i free
            cases done
            exact ⟨.inr ⟨by simpa using identifier, by simpa using free⟩, rfl⟩
  · rintro ⟨front, entry, back, has, allowed, rfl⟩
    rw [rename, has.position?_eq]
    simp only [has.getElem?_eq, has.hasOther_eq, has.set_eq]
    by_cases own : name = entry.name
    · subst own
      rw [if_pos rfl, ← has.entries]
    · obtain ⟨identifier, free⟩ := allowed.resolve_left own
      rw [if_neg own, if_neg (by simp [identifier]), if_neg (by simpa using free)]

theorem moveTarget_of_entries_eq_nil (empty : block.entries = []) (index offset : Int) :
    block.moveTarget index offset = 0 := by
  rw [moveTarget, empty, List.length_nil]
  omega

theorem moveTarget_inside (size : 0 < block.entries.length) (index offset : Int) :
    0 ≤ block.moveTarget index offset ∧
      block.moveTarget index offset < block.entries.length := by
  unfold moveTarget
  omega

theorem HasAt.exists_parts (has : block.HasAt index front entry back) (offset : Int) :
    ∃ newFront newBack, newFront ++ newBack = front ++ back ∧
      (newFront.length : Int) = block.moveTarget index offset := by
  have size := has.length_entries
  have nonempty : 0 < block.entries.length := by omega
  obtain ⟨first, last⟩ := moveTarget_inside nonempty index offset
  obtain ⟨place, target⟩ := Int.eq_ofNat_of_zero_le first
  have inside : place ≤ (front ++ back).length := by
    rw [List.length_append]
    omega
  refine ⟨_, _, List.take_append_drop place (front ++ back), ?_⟩
  rw [List.length_take_of_le inside, target]

/-- Moving an entry leaves the others in their order, and puts it where the move is to end. In a
block without entries nothing is moved. -/
theorem move_eq_ok_iff {offset target : Int} {moved : Block} :
    block.move index offset = .ok (target, moved) ↔
      target = block.moveTarget index offset ∧
        (block.entries = [] ∧ index = 0 ∧ moved = block ∨
          ∃ front entry back newFront newBack, block.HasAt index front entry back ∧
            newFront ++ newBack = front ++ back ∧ (newFront.length : Int) = target ∧
            moved = { block with entries := newFront ++ entry :: newBack }) := by
  constructor
  · intro done
    unfold move at done
    simp only at done
    split at done
    · rename_i stays
      cases done
      refine ⟨rfl, ?_⟩
      by_cases empty : block.entries = []
      · have ends := moveTarget_of_entries_eq_nil empty index offset
        exact .inl ⟨empty, stays.symm.trans ends, rfl⟩
      · obtain ⟨first, last⟩ :=
          moveTarget_inside (List.length_pos_of_ne_nil empty) index offset
        rw [stays] at first last
        obtain ⟨place, rfl⟩ := Int.eq_ofNat_of_zero_le first
        have inside : place < block.entries.length := by omega
        have has := hasAt_take_drop inside (.inl rfl)
        have before := List.length_take_of_le inside.le
        refine .inr ⟨_, _, _, _, _, has, rfl, ?_, ?_⟩
        · rw [before, stays]
        · rw [← has.entries]
    · obtain ⟨⟨entry, rest⟩, taken, equality⟩ := map_eq_ok done
      obtain ⟨front, back, has, rfl⟩ := take_eq_ok_iff.mp taken
      cases equality
      obtain ⟨newFront, newBack, others, ends⟩ := has.exists_parts offset
      refine ⟨rfl, .inr ⟨front, entry, back, newFront, newBack, has, others, ends, ?_⟩⟩
      rw [← ends, ← others, Int.toNat_natCast, insertIdx_length_append]
  · rintro ⟨rfl, ⟨empty, rfl, rfl⟩ |
      ⟨front, entry, back, newFront, newBack, has, others, ends, rfl⟩⟩
    · rw [move, moveTarget_of_entries_eq_nil empty]
      rfl
    · rw [move]
      simp only
      split
      · -- The entry stays where it is, and so do the parts around it.
        rename_i stays
        have counted := has.index
        obtain ⟨rfl, rfl⟩ := List.append_inj others (by omega)
        rw [← has.entries]
      · have taken : block.take index = .ok _ := take_eq_ok_iff.mpr ⟨front, back, has, rfl⟩
        rw [taken, ← ends, ← others]
        simp only [Except.map, Int.toNat_natCast, insertIdx_length_append]

theorem perm_entries_move {offset target : Int} {moved : Block}
    (done : block.move index offset = .ok (target, moved)) : moved.entries.Perm block.entries := by
  obtain ⟨-, ⟨-, -, rfl⟩ | ⟨front, entry, back, newFront, newBack, has, others, -, rfl⟩⟩ :=
    move_eq_ok_iff.mp done
  · exact .refl _
  · rw [has.entries]
    calc
      List.Perm (newFront ++ entry :: newBack) (entry :: (newFront ++ newBack)) :=
        List.perm_middle
      _ = entry :: (front ++ back) := by rw [others]
      List.Perm _ (front ++ entry :: back) := List.perm_middle.symm

/-- An entry can be moved by every offset. It is then where the offset leads to, or at the end of
the block that it leads beyond; and moving it back leaves the block as it was. -/
theorem move_and_back (block : Block) (index : Fin block.entries.length) (offset : Int) :
    ∃ (target : Nat) (moved : Block),
      block.move index.val offset = .ok (target, moved) ∧
      (target : Int) = max 0 (min ((block.entries.length : Int) - 1) (index.val + offset)) ∧
      moved.entries[target]? = some block.entries[index] ∧
      moved.move target (index.val - target) = .ok (index.val, block) := by
  have has := hasAt_take_drop index.isLt (.inl rfl)
  obtain ⟨newFront, newBack, others, ends⟩ := has.exists_parts offset
  let moved : Block := { block with entries := newFront ++ block.entries[index] :: newBack }
  have hasMoved : moved.HasAt newFront.length newFront block.entries[index] newBack :=
    ⟨rfl, .inl rfl⟩
  have done : block.move index.val offset = .ok ((newFront.length : Int), moved) :=
    move_eq_ok_iff.mpr ⟨ends, .inr ⟨_, _, _, newFront, newBack, has, others, rfl, rfl⟩⟩
  -- The way back ends inside the block, so nothing of it is cut off.
  have returns : (index.val : Int) =
      moved.moveTarget newFront.length (index.val - newFront.length) := by
    have size := (perm_entries_move done).length_eq
    have inside := index.isLt
    rw [moveTarget, size]
    omega
  have before : (block.entries.take index.val).length = index.val :=
    List.length_take_of_le index.isLt.le
  refine ⟨newFront.length, moved, done, ends, hasMoved.getElem?_eq, ?_⟩
  refine move_eq_ok_iff.mpr ⟨returns, .inr ⟨_, _, _, _, _, hasMoved, others.symm, ?_, ?_⟩⟩
  · rw [before]
  · exact congrArg (Block.mk block.name) has.entries

end Block

end EnumBlocks
