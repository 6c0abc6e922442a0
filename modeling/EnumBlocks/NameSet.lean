import EnumBlocks.Text.Basic

/-!
Finite sets of names, kept in the order of their code points.
-/

namespace EnumBlocks

/-- Put a name into an ordered list of names, unless it is there. -/
def insertName (name : Text) : List Text → List Text
  | [] => [name]
  | other :: rest =>
      if name = other then other :: rest
      else if name < other then name :: other :: rest
      else other :: insertName name rest

structure NameSet where
  names : List Text
  ordered : names.Pairwise (· < ·)
  deriving DecidableEq, Repr

namespace NameSet

def empty : NameSet := ⟨[], .nil⟩

instance : Inhabited NameSet := ⟨empty⟩

instance : Membership Text NameSet := ⟨fun set name => name ∈ set.names⟩

instance (name : Text) (set : NameSet) : Decidable (name ∈ set) :=
  inferInstanceAs (Decidable (name ∈ set.names))

def isEmpty (set : NameSet) : Bool :=
  set.names.isEmpty

end NameSet

theorem mem_insertName {name other : Text} {names : List Text} :
    other ∈ insertName name names ↔ other = name ∨ other ∈ names := by
  induction names with
  | nil => simp [insertName]
  | cons first rest inductionHypothesis =>
      simp only [insertName]
      split
      · rename_i same
        simp [same]
      · split
        · simp
        · simp only [List.mem_cons, inductionHypothesis]
          constructor
          · rintro (h | h | h) <;> simp [h]
          · rintro (h | h | h) <;> simp [h]

theorem pairwise_insertName {name : Text} {names : List Text}
    (ordered : names.Pairwise (· < ·)) : (insertName name names).Pairwise (· < ·) := by
  induction names with
  | nil => simp [insertName]
  | cons first rest inductionHypothesis =>
      have parts := List.pairwise_cons.1 ordered
      simp only [insertName]
      split
      · exact ordered
      · rename_i different
        split
        · rename_i smaller
          refine List.pairwise_cons.2 ⟨fun other found => ?_, ordered⟩
          rcases List.mem_cons.1 found with rfl | later
          · exact smaller
          · exact List.lt_trans smaller (parts.1 other later)
        · rename_i notSmaller
          refine List.pairwise_cons.2 ⟨fun other found => ?_, inductionHypothesis parts.2⟩
          rcases mem_insertName.1 found with rfl | later
          · exact Std.lt_of_le_of_ne (Std.not_lt.1 notSmaller) (fun same => different same.symm)
          · exact parts.1 other later

namespace NameSet

def insert (set : NameSet) (name : Text) : NameSet :=
  ⟨insertName name set.names, pairwise_insertName set.ordered⟩

def erase (set : NameSet) (name : Text) : NameSet :=
  ⟨set.names.filter (· ≠ name), set.ordered.sublist List.filter_sublist⟩

def ofList (names : List Text) : NameSet :=
  names.foldl insert empty

theorem mem_def {name : Text} {set : NameSet} : name ∈ set ↔ name ∈ set.names := Iff.rfl

@[simp]
theorem not_mem_empty (name : Text) : name ∉ empty := by
  simp [mem_def, empty]

@[simp]
theorem mem_insert {set : NameSet} {name other : Text} :
    other ∈ set.insert name ↔ other = name ∨ other ∈ set :=
  mem_insertName

@[simp]
theorem mem_erase {set : NameSet} {name other : Text} :
    other ∈ set.erase name ↔ other ∈ set ∧ other ≠ name := by
  simp [mem_def, erase]

end NameSet

end EnumBlocks
