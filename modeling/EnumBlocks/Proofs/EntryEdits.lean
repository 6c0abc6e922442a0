import EnumBlocks.Proofs.EntryPlaces
import EnumBlocks.Proofs.FreshName
import EnumBlocks.Proofs.InPlace
import Mathlib.Data.List.Nodup

/-!
The edits of a block, one after the other. However they end, entries whose names differ keep names
that differ, and an edit that succeeds concerns the entry that it names and no other.
-/

namespace EnumBlocks.Block

def step (block : Block) (edit : Edit) : Block :=
  ((editInPlace edit).runOn block).2

def run (block : Block) (edits : List Edit) : Block :=
  edits.foldl step block

variable {block edited : Block}

theorem step_eq (block : Block) (edit : Edit) :
    block.step edit =
      match block.edit edit with
      | .ok (_, edited) => edited
      | .error _ => block := by
  rw [step, runOn_editInPlace]
  cases block.edit edit with
  | error cause => rfl
  | ok parts => rfl

section Distinct

variable (distinct : block.entryNames.Nodup)

include distinct

theorem nodup_entryNames_add {name value comment : Text} {entry : Entry}
    (done : block.add name value comment = .ok (entry, edited)) : edited.entryNames.Nodup := by
  obtain ⟨-, rfl, rfl⟩ := add_eq_ok_iff.mp done
  have free := freshName_notMem block.entryNames name
  rw [entryNames, append, List.map_append, List.nodup_append_comm]
  exact List.nodup_cons.mpr ⟨free, distinct⟩

theorem nodup_entryNames_take {index : Int} {entry : Entry}
    (done : block.take index = .ok (entry, edited)) : edited.entryNames.Nodup := by
  obtain ⟨front, back, has, rfl⟩ := take_eq_ok_iff.mp done
  rw [entryNames, has.entries, List.map_append, List.map_cons, List.nodup_middle] at distinct
  rw [entryNames, List.map_append]
  exact distinct.of_cons

theorem nodup_entryNames_rename {index : Int} {name : Text}
    (done : block.rename index name = .ok edited) : edited.entryNames.Nodup := by
  obtain ⟨front, entry, back, has, allowed, rfl⟩ := rename_eq_ok_iff.mp done
  rw [entryNames, has.entries, List.map_append, List.map_cons, List.nodup_middle] at distinct
  obtain ⟨own, others⟩ := List.nodup_cons.mp distinct
  rw [entryNames, List.map_append, List.map_cons, List.nodup_middle]
  apply List.Nodup.cons _ others
  rw [← List.map_append] at own ⊢
  rcases allowed with rfl | ⟨-, free⟩
  · exact own
  · exact free

end Distinct

/-- An edit keeps names apart. -/
theorem nodup_entryNames_edit (distinct : block.entryNames.Nodup) {edit : Edit}
    {answer : EditAnswer} (done : block.edit edit = .ok (answer, edited)) :
    edited.entryNames.Nodup := by
  cases edit with
  | add name value comment =>
      obtain ⟨⟨entry, longer⟩, added, equality⟩ := map_eq_ok done
      cases equality
      exact nodup_entryNames_add distinct added
  | remove index =>
      obtain ⟨⟨entry, shorter⟩, taken, equality⟩ := map_eq_ok done
      cases equality
      exact nodup_entryNames_take distinct taken
  | rename index name =>
      obtain ⟨renamed, carriedOut, equality⟩ := map_eq_ok done
      cases equality
      exact nodup_entryNames_rename distinct carriedOut
  | move index offset =>
      obtain ⟨⟨target, moved⟩, carriedOut, equality⟩ := map_eq_ok done
      cases equality
      have same := (perm_entries_move carriedOut).map Entry.name
      exact same.nodup_iff.mpr distinct

theorem nodup_entryNames_step (distinct : block.entryNames.Nodup) (edit : Edit) :
    (block.step edit).entryNames.Nodup := by
  rw [step_eq]
  cases done : block.edit edit with
  | error cause => exact distinct
  | ok parts => exact nodup_entryNames_edit distinct done

theorem nodup_entryNames_run (distinct : block.entryNames.Nodup) (edits : List Edit) :
    (block.run edits).entryNames.Nodup := by
  induction edits generalizing block with
  | nil => exact distinct
  | cons edit rest inductionHypothesis =>
      exact inductionHypothesis (nodup_entryNames_step distinct edit)

/-- Entries whose names differ keep names that differ, whatever edits follow each other and however
these end. An edit that fails changes nothing. Where it succeeds, adding puts one entry behind the
others, removing drops the entry at the position, and naming changes the name of that entry and
nothing else; moving leaves the same entries, those that are not moved in their order. -/
theorem distinct_run_edits (distinct : block.entryNames.Nodup) (edits : List Edit) :
    let reached := block.run edits
    reached.entryNames.Nodup ∧
    (∀ edit cause, reached.edit edit = .error cause → reached.step edit = reached) ∧
    (∀ edit answer edited, reached.edit edit = .ok (answer, edited) → reached.step edit = edited) ∧
    (∀ name value comment entry edited, reached.add name value comment = .ok (entry, edited) →
      edited = reached.append [entry] ∧ entry.value = value ∧ entry.comment = comment) ∧
    (∀ index entry edited, reached.take index = .ok (entry, edited) →
      ∃ front back, reached.HasAt index front entry back ∧
        edited = { reached with entries := front ++ back }) ∧
    (∀ index name edited, reached.rename index name = .ok edited →
      ∃ front entry back, reached.HasAt index front entry back ∧
        edited = { reached with entries := front ++ { entry with name := name } :: back }) ∧
    (∀ index offset target edited, reached.move index offset = .ok (target, edited) →
      edited.entries.Perm reached.entries ∧
        (reached.entries = [] ∧ edited = reached ∨
          ∃ front entry back newFront newBack, reached.HasAt index front entry back ∧
            newFront ++ newBack = front ++ back ∧ (newFront.length : Int) = target ∧
            edited = { reached with entries := newFront ++ entry :: newBack })) := by
  intro reached
  refine ⟨nodup_entryNames_run distinct edits, ?failing, ?succeeding, ?adding, ?removing, ?naming,
    ?moving⟩
  case failing =>
    intro edit cause failed
    rw [step_eq, failed]
  case succeeding =>
    intro edit answer edited done
    rw [step_eq, done]
  case adding =>
    intro name value comment entry edited done
    obtain ⟨-, rfl, rfl⟩ := add_eq_ok_iff.mp done
    exact ⟨rfl, rfl, rfl⟩
  case removing =>
    intro index entry edited done
    exact take_eq_ok_iff.mp done
  case naming =>
    intro index name edited done
    obtain ⟨front, entry, back, has, -, equality⟩ := rename_eq_ok_iff.mp done
    exact ⟨front, entry, back, has, equality⟩
  case moving =>
    intro index offset target edited done
    refine ⟨perm_entries_move done, ?_⟩
    obtain ⟨-, ⟨empty, -, same⟩ | moved⟩ := move_eq_ok_iff.mp done
    · exact .inl ⟨empty, same⟩
    · exact .inr moved

def threeEntries : Block :=
  ⟨['E'], [⟨['A'], ['1'], []⟩, ⟨['B'], [], ['x']⟩, ⟨['C'], [], []⟩]⟩

/-- The last entry is moved to the front, three edits fail, one entry is added under a number, and
one is removed. -/
theorem distinct_run_edits_threeEntries :
    let reached := threeEntries.run [.move (-1) 0, .rename 3 ['D'], .rename 0 ['B'], .remove (-4),
      .add ['A'] [] [], .remove 2]
    reached.entries = [⟨['C'], [], []⟩, ⟨['A'], ['1'], []⟩, ⟨['A', '1'], [], []⟩] ∧
      reached.entryNames.Nodup ∧
      ∃ front entry back, reached.HasAt (-3) front entry back ∧
        (reached.step (.rename (-3) ['B'])).entries =
          front ++ { entry with name := ['B'] } :: back := by
  intro reached
  have distinct : threeEntries.entryNames.Nodup := by decide
  obtain ⟨apart, -, succeeding, -, -, naming, -⟩ := distinct_run_edits distinct
    [.move (-1) 0, .rename 3 ['D'], .rename 0 ['B'], .remove (-4), .add ['A'] [] [], .remove 2]
  have renamed : reached.rename (-3) ['B'] =
    .ok ⟨['E'], [⟨['B'], [], []⟩, ⟨['A'], ['1'], []⟩, ⟨['A', '1'], [], []⟩]⟩ := by decide
  obtain ⟨front, entry, back, has, equality⟩ := naming _ _ _ renamed
  refine ⟨by decide, apart, front, entry, back, has, ?_⟩
  have stepped := succeeding (.rename (-3) ['B']) .done _ (by rw [edit, renamed]; rfl)
  rw [stepped, equality]

end EnumBlocks.Block
