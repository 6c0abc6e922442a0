import EnumBlocks.Proofs.Layout
import EnumBlocks.Proofs.Loss

/-!
The names of an outline and the lines that declare them. Reading a document and locating one block
of it look for declarations in two ways: one reads whatever name follows the keyword, the other
looks for a given name. They find the same names, and the outline has them in the order of their
first declarations.
-/

namespace EnumBlocks

theorem headLine?_append_right {name : Text} {lines : List Text} {head : Nat}
    (headed : headLine? name lines = some head) (after : List Text) :
    headLine? name (lines ++ after) = some head := by
  unfold headLine? at headed ⊢
  rw [List.findIdx?_append, headed]
  rfl

theorem lt_length_of_headLine? {name : Text} {lines : List Text} {head : Nat}
    (headed : headLine? name lines = some head) : head < lines.length :=
  (List.findIdx?_eq_some_iff_findIdx_eq.mp headed).1

theorem mem_names_ofLines_iff_isSome {name : Text} (named : IsName name) (lines : List Text) :
    name ∈ (Outline.ofLines lines).names ↔ (headLine? name lines).isSome = true := by
  rw [mem_names_ofLines, isSome_headLine?_iff, undeclared_iff named, not_not]

theorem names_ofLines (lines : List Text) :
    (Outline.ofLines lines).names =
      (declaredNames lines).foldl
        (fun names name => if name ∈ names then names else names ++ [name]) [] := by
  rw [← names_declaredIn]
  exact Outline.names_foldl_put (declaredIn lines) .empty

theorem names_ofLines_concat (lines : List Text) (line : Text) :
    (Outline.ofLines (lines ++ [line])).names = (Outline.ofLines lines).names ∨
      ∃ name, declares name line = true ∧ Undeclared name lines ∧
        (Outline.ofLines (lines ++ [line])).names = (Outline.ofLines lines).names ++ [name] := by
  rw [names_ofLines (lines ++ [line]), declaredNames_append, List.foldl_append, ← names_ofLines]
  cases read : Declaration.ofLine? line with
  | none =>
      refine .inl ?_
      simp [declaredNames, read]
  | some declaration =>
      have alone : declaredNames [line] = [declaration.name] := by simp [declaredNames, read]
      have named : IsName declaration.name := isName_of_ofLine? read
      rw [alone, List.foldl_cons, List.foldl_nil]
      by_cases present : declaration.name ∈ (Outline.ofLines lines).names
      · rw [if_pos present]
        exact .inl rfl
      · rw [if_neg present]
        rw [mem_names_ofLines, ← undeclared_iff named] at present
        exact .inr ⟨declaration.name, declares_ofLine? read, present, rfl⟩

section Heads

variable {names lines : List Text} {heads : List Nat}
  (found : names.map (headLine? · lines) = heads.map some)

include found in
theorem map_headLine?_append (after : List Text) :
    names.map (headLine? · (lines ++ after)) = heads.map some := by
  rw [← found]
  refine List.map_congr_left fun name membership => ?_
  have listed : headLine? name lines ∈ heads.map some := found ▸ List.mem_map_of_mem membership
  obtain ⟨head, -, headed⟩ := List.mem_map.mp listed
  rw [← headed, headLine?_append_right headed.symm]

include found in
theorem lt_length_of_mem_heads {head : Nat} (membership : head ∈ heads) :
    head < lines.length := by
  have listed : some head ∈ names.map (headLine? · lines) :=
    found ▸ List.mem_map_of_mem membership
  obtain ⟨name, -, headed⟩ := List.mem_map.mp listed
  exact lt_length_of_headLine? headed

end Heads

/-- The names of an outline have increasing first declarations. -/
theorem exists_heads (lines : List Text) :
    ∃ heads : List Nat,
      (Outline.ofLines lines).names.map (headLine? · lines) = heads.map some ∧
        heads.Pairwise (· < ·) := by
  -- A last line can only add a name that it is the first to declare, so its head is the greatest.
  induction lines using List.reverseRecOn with
  | nil => exact ⟨[], rfl, .nil⟩
  | append_singleton lines line inductionHypothesis =>
      obtain ⟨heads, found, increasing⟩ := inductionHypothesis
      have kept := map_headLine?_append found [line]
      rcases names_ofLines_concat lines line with same | ⟨name, declared, absent, added⟩
      · exact ⟨heads, same ▸ kept, increasing⟩
      · have alone : headLine? name [line] = some 0 := by
          rw [headLine?, List.findIdx?_cons, declared]
          rfl
        have last : headLine? name (lines ++ [line]) = some lines.length := by
          rw [headLine?_append_left absent, alone, Option.map_some, Nat.zero_add]
        refine ⟨heads ++ [lines.length], ?_, ?_⟩
        · rw [added, List.map_append, kept, List.map_append, List.map_singleton,
            List.map_singleton, last]
        · rw [List.pairwise_append]
          refine ⟨increasing, List.pairwise_singleton _ _, ?_⟩
          intro head earlier other membership
          rw [List.mem_singleton.mp membership]
          exact lt_length_of_mem_heads found earlier

/-- Reading a document and locating its blocks find the same declarations: the names of the outline
are the names that a line declares, in the order of the lines that declare them first. -/
theorem declarations_agree (lines : List Text) :
    (∀ name, IsName name →
      (name ∈ (Outline.ofLines lines).names ↔ (headLine? name lines).isSome = true)) ∧
    ∃ heads : List Nat,
      (Outline.ofLines lines).names.map (headLine? · lines) = heads.map some ∧
        heads.Pairwise (· < ·) :=
  ⟨fun _ named => mem_names_ofLines_iff_isSome named lines, exists_heads lines⟩

def keywordLines : List Text :=
  [['e', 'n', 'u', 'm', ' ', 'e', 'n', 'u', 'm', 'A', ' ', '{', ' ', '}'],
   ['e', 'n', 'u', 'm', 'A'],
   ['[', 'F', ']', ' ', 'p', 'u', 'b', 'l', 'i', 'c', ' ', 'e', 'n', 'u', 'm', ' ',
    'e', 'n', 'u', 'm', ' ', '{', ' ', '}'],
   ['e', 'n', 'u', 'm', ' ', 'e', 'n', 'u', 'm', 'A']]

theorem declarations_agree_keywordLines :
    IsName enumKeyword ∧
      (enumKeyword ∈ (Outline.ofLines keywordLines).names ↔
        (headLine? enumKeyword keywordLines).isSome = true) ∧
      headLine? enumKeyword keywordLines = some 2 := by
  have named : IsName enumKeyword := by decide
  have found : headLine? enumKeyword keywordLines = some 2 := rfl
  exact ⟨named, (declarations_agree keywordLines).1 enumKeyword named, found⟩

end EnumBlocks
