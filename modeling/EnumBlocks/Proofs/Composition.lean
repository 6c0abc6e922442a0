import EnumBlocks.Proofs.Agreement

/-!
The outline of a document from those of its parts. Where the first part leaves no block open, what
follows is read as if it stood alone, and its blocks are put into the outline of the first part.
-/

namespace EnumBlocks

namespace Outline

/-- The outline with the blocks of another put into it, in their order. -/
def update (outline other : Outline) : Outline :=
  other.blocks.foldl put outline

theorem find?_foldl_put (blocks : List Block) (outline : Outline) (name : Text) :
    (blocks.foldl put outline).find? name =
      (blocks.findRev? (·.name == name)).or (outline.find? name) := by
  induction blocks generalizing outline with
  | nil => rfl
  | cons block rest inductionHypothesis =>
      rw [List.foldl_cons, inductionHypothesis, find?_put, findRev?_cons]
      cases rest.findRev? (·.name == name) with
      | some later => rfl
      | none =>
          by_cases named : block.name = name
          · simp [named]
          · simp [named]

theorem names_foldl_put_eq (blocks : List Block) (outline : Outline) :
    (blocks.foldl put outline).names =
      outline.names ++ (ofBlocks blocks).names.filter (· ∉ outline.names) := by
  induction blocks using List.reverseRecOn with
  | nil => simp [ofBlocks, names, empty]
  | append_singleton earlier block inductionHypothesis =>
      rw [List.foldl_concat, names_put, inductionHypothesis, ofBlocks_concat, names_put]
      by_cases own : block.name ∈ outline.names
      · by_cases again : block.name ∈ (ofBlocks earlier).names <;> simp [own, again]
      · by_cases again : block.name ∈ (ofBlocks earlier).names <;> simp [own, again]

variable (outline other : Outline)

theorem ofBlocks_blocks : ofBlocks outline.blocks = outline :=
  eq_of_blocks_eq (blocks_ofBlocks outline.distinct)

theorem find?_update (name : Text) :
    (outline.update other).find? name = (other.find? name).or (outline.find? name) := by
  rw [update, find?_foldl_put, ← find?_ofBlocks, ofBlocks_blocks]

theorem names_update :
    (outline.update other).names = outline.names ++ other.names.filter (· ∉ outline.names) := by
  rw [update, names_foldl_put_eq, ofBlocks_blocks]

theorem update_ofBlocks (blocks : List Block) :
    outline.update (ofBlocks blocks) = blocks.foldl put outline := by
  refine ext_of_find? ?_ fun name => ?_
  · rw [names_update, names_foldl_put_eq]
  · rw [find?_update, find?_foldl_put, find?_ofBlocks]

end Outline

theorem ofBlocks_append (first second : List Block) :
    Outline.ofBlocks (first ++ second) = (Outline.ofBlocks first).update (.ofBlocks second) := by
  rw [Outline.update_ofBlocks, Outline.ofBlocks, List.foldl_append]
  rfl

theorem settled_of_notices {lines : List Text}
    (quiet : ∀ name, Notice.neverClosed name ∉ (Reading.ofLines lines).notices) :
    Settled lines := by
  unfold Settled
  cases opened : (Reading.ofLines lines).scopes with
  | nil => rfl
  | cons scope outer =>
      refine absurd ?_ (quiet scope.name)
      simp [Reading.notices, opened]

/-- The outline of a document whose first lines leave no block open is that of the first lines with
the blocks of the others put into it, whatever depth of nesting the first lines leave: the names of
the first lines keep their places, those that only the others declare follow in their order, and a
name that both declare has the entries of the others. -/
theorem ofLines_append {first : List Text}
    (quiet : ∀ name, Notice.neverClosed name ∉ (Reading.ofLines first).notices)
    (second : List Text) :
    Outline.ofLines (first ++ second) =
        (Outline.ofLines first).update (Outline.ofLines second) ∧
      (Outline.ofLines (first ++ second)).names = (Outline.ofLines first).names ++
        (Outline.ofLines second).names.filter (· ∉ (Outline.ofLines first).names) ∧
      ∀ name, (Outline.ofLines (first ++ second)).find? name =
        ((Outline.ofLines second).find? name).or ((Outline.ofLines first).find? name) := by
  have whole : Outline.ofLines (first ++ second) =
      (Outline.ofLines first).update (Outline.ofLines second) := by
    have declared := declaredIn_append (settled_of_notices quiet) second
    unfold declaredIn at declared
    rw [Outline.ofLines, Reading.outline, declared, ofBlocks_append]
    rfl
  rw [whole]
  exact ⟨rfl, Outline.names_update _ _, fun name => Outline.find?_update _ _ name⟩

def overclosedLines : List Text :=
  [['}'], ['e', 'n', 'u', 'm', ' ', 'A', '{', 'X', '}']]

/-- Lines that declare a block of the name again, after another, and leave it open. -/
def redeclaringLines : List Text :=
  [['e', 'n', 'u', 'm', ' ', 'B', '{', 'Y', '}'], ['e', 'n', 'u', 'm', ' ', 'A'], ['{'], ['Z', ',']]

theorem ofLines_append_redeclaringLines :
    (Outline.ofLines (overclosedLines ++ redeclaringLines)).blocks =
      [⟨['A'], [⟨['Z'], [], []⟩]⟩, ⟨['B'], [⟨['Y'], [], []⟩]⟩] := by
  have notices : (Reading.ofLines overclosedLines).notices = [] := by decide
  obtain ⟨whole, -, -⟩ := @ofLines_append overclosedLines (by simp [notices]) redeclaringLines
  rw [whole]
  decide

end EnumBlocks
