import EnumBlocks.Proofs.Naming
import Mathlib.Data.Finset.Card

/-!
The search for the name of an added entry. It tries the candidates one after the other until one is
free. No two candidates are the same, so that each round passes another of the names that are taken,
and there are at most as many rounds as there are such names.
-/

namespace EnumBlocks

theorem decimal_injective : Function.Injective Text.decimal := by
  intro number other same
  calc
    number = Nat.ofDigitChars 10 (Text.decimal number) 0 := Nat.ofDigitChars_ten_toDigits.symm
    _ = Nat.ofDigitChars 10 (Text.decimal other) 0 := by rw [same]
    _ = other := Nat.ofDigitChars_ten_toDigits

theorem candidateName_succ_ne (name : Text) (suffix : Nat) :
    candidateName name (suffix + 1) ≠ name := by
  intro same
  exact Nat.toDigits_ne_nil (List.append_right_eq_self.mp same)

theorem candidateName_injective (name : Text) : Function.Injective (candidateName name) := by
  intro suffix other same
  cases suffix with
  | zero =>
      cases other with
      | zero => rfl
      | succ other => exact absurd same.symm (candidateName_succ_ne name other)
  | succ suffix =>
      cases other with
      | zero => exact absurd same (candidateName_succ_ne name suffix)
      | succ other => exact decimal_injective (List.append_cancel_left same)

/-- Whether a candidate is the first that is not taken. -/
structure IsFirstFree (taken : List Text) (name : Text) (suffix : Nat) : Prop where
  free : candidateName name suffix ∉ taken
  passed : ∀ earlier < suffix, candidateName name earlier ∈ taken

/-- As many candidates as are taken one after the other, as many names are taken. -/
theorem le_card_of_passed {taken : List Text} {name : Text} {suffix : Nat}
    (passed : ∀ earlier < suffix, candidateName name earlier ∈ taken) :
    suffix ≤ taken.toFinset.card := by
  have maps : Set.MapsTo (candidateName name) (Finset.range suffix) taken.toFinset := by
    intro earlier before
    exact List.mem_toFinset.mpr (passed earlier (Finset.mem_range.mp before))
  calc
    suffix = (Finset.range suffix).card := (Finset.card_range suffix).symm
    _ ≤ taken.toFinset.card :=
        Finset.card_le_card_of_injOn _ maps (candidateName_injective name).injOn

theorem exists_isFirstFree_freshName (taken : List Text) (name : Text) :
    ∃ suffix, IsFirstFree taken name suffix ∧ freshName taken name = candidateName name suffix := by
  unfold freshName
  split
  · rename_i suffix found
    obtain ⟨free, -, passed⟩ := List.find?_range_eq_some.mp found
    refine ⟨suffix, ⟨of_decide_eq_true free, ?_⟩, rfl⟩
    intro earlier before
    simpa using passed earlier before
  · -- More candidates would be taken than there are names.
    rename_i notFound
    have passed : ∀ suffix < taken.length + 1, candidateName name suffix ∈ taken := by
      intro suffix before
      simpa using List.find?_range_eq_none.mp notFound suffix before
    have enough := (le_card_of_passed passed).trans (List.toFinset_card_le taken)
    omega

theorem freshName_notMem (taken : List Text) (name : Text) : freshName taken name ∉ taken := by
  obtain ⟨suffix, first, equality⟩ := exists_isFirstFree_freshName taken name
  rw [equality]
  exact first.free

/-- A search for a free name: the candidate, and the number for the next one. -/
structure NameSearch where
  candidate : Text
  number : Nat

namespace NameSearch

def start (name : Text) : NameSearch :=
  ⟨name, 1⟩

def next (name : Text) (search : NameSearch) : NameSearch :=
  ⟨name ++ Text.decimal search.number, search.number + 1⟩

/-- How many rounds a search takes, and how it ends: while the candidate is taken, the next one is
tried. -/
inductive Ends (taken : List Text) (name : Text) : NameSearch → Nat → NameSearch → Prop where
  | free {search : NameSearch} (free : search.candidate ∉ taken) : Ends taken name search 0 search
  | round {search final : NameSearch} {rounds : Nat} (occupied : search.candidate ∈ taken)
      (rest : Ends taken name (search.next name) rounds final) :
      Ends taken name search (rounds + 1) final

variable {taken : List Text} {name : Text}

theorem Ends.unique {search final last : NameSearch} {rounds count : Nat}
    (ends : Ends taken name search rounds final) (other : Ends taken name search count last) :
    count = rounds ∧ last = final := by
  induction ends generalizing count last with
  | free free =>
      cases other with
      | free _ => exact ⟨rfl, rfl⟩
      | round occupied _ => contradiction
  | round occupied _ inductionHypothesis =>
      cases other with
      | free free => contradiction
      | round _ rest =>
          obtain ⟨rfl, rfl⟩ := inductionHypothesis rest
          exact ⟨rfl, rfl⟩

def after (name : Text) (rounds : Nat) : NameSearch :=
  ⟨candidateName name rounds, rounds + 1⟩

theorem next_after (name : Text) (rounds : Nat) :
    (after name rounds).next name = after name (rounds + 1) := rfl

theorem ends_after (done : Nat) {rounds : Nat} (first : IsFirstFree taken name (done + rounds)) :
    Ends taken name (after name done) rounds (after name (done + rounds)) := by
  induction rounds generalizing done with
  | zero => exact .free first.free
  | succ rounds inductionHypothesis =>
      have occupied : candidateName name done ∈ taken := first.passed done (by omega)
      have shift : done + (rounds + 1) = done + 1 + rounds := by omega
      rw [shift] at first ⊢
      apply Ends.round occupied
      rw [next_after]
      exact inductionHypothesis (done + 1) first

/-- A search ends at the first free candidate. -/
theorem ends_start_iff {rounds count : Nat} {final : NameSearch}
    (first : IsFirstFree taken name rounds) :
    Ends taken name (start name) count final ↔ count = rounds ∧ final = after name rounds := by
  have ends := ends_after 0 (Nat.zero_add rounds ▸ first)
  rw [Nat.zero_add] at ends
  constructor
  · exact ends.unique
  · rintro ⟨rfl, rfl⟩
    exact ends

end NameSearch

namespace Block

/-- An entry can be added to every block under every identifier. The search for its name ends after
at most as many rounds as the block has different names, at the first candidate that no entry
has. -/
theorem exists_search_add {name : Text} (identifier : isIdentifier name = true) (block : Block)
    (value comment : Text) :
    ∃ (rounds : Nat) (entry : Entry),
      block.add name value comment = .ok (entry, block.append [entry]) ∧
      (∀ count final, NameSearch.Ends block.entryNames name (.start name) count final ↔
        count = rounds ∧ final = ⟨entry.name, rounds + 1⟩) ∧
      rounds ≤ block.entryNames.toFinset.card ∧
      entry.name = candidateName name rounds ∧ entry.name ∉ block.entryNames ∧
      ∀ earlier < rounds, candidateName name earlier ∈ block.entryNames := by
  obtain ⟨rounds, first, named⟩ := exists_isFirstFree_freshName block.entryNames name
  have added : block.add name value comment = .ok _ :=
    add_eq_ok_iff.mpr ⟨isIdentifier_iff.mp identifier, rfl, rfl⟩
  refine ⟨rounds, _, added, ?_, le_card_of_passed first.passed, named, ?_, first.passed⟩
  · intro count final
    rw [named]
    exact NameSearch.ends_start_iff first
  · exact freshName_notMem block.entryNames name

def repeatedNames : Block :=
  ⟨['E'], [⟨['A', '1'], [], []⟩, ⟨['A'], [], []⟩, ⟨['A', '1'], [], []⟩]⟩

/-- The bound is met: the search passes both names that the block has. -/
theorem exists_search_add_repeatedNames :
    ∃ (rounds : Nat) (entry : Entry),
      repeatedNames.add ['A'] [] [] = .ok (entry, repeatedNames.append [entry]) ∧
      NameSearch.Ends repeatedNames.entryNames ['A'] ⟨['A'], 1⟩ rounds ⟨['A', '2'], 3⟩ ∧
      rounds = 2 ∧ repeatedNames.entryNames.toFinset.card = 2 ∧ entry.name = ['A', '2'] := by
  obtain ⟨rounds, entry, added, ends, -, named, -, -⟩ :=
    @exists_search_add ['A'] rfl repeatedNames [] []
  cases added
  obtain rfl : rounds = 2 := candidateName_injective ['A'] named.symm
  exact ⟨2, _, rfl, (ends 2 _).mpr ⟨rfl, rfl⟩, rfl, by decide, rfl⟩

end Block

end EnumBlocks
