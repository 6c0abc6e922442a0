import EnumBlocks.Commit
import EnumBlocks.Proofs.Splice

/-!
The lines of a document while it is saved. A property of lines is kept by every removal, replacement
and addition if the lines that are written have it, and where two ways to save agree on documents of
such lines, they save alike.
-/

namespace EnumBlocks

namespace Commit

variable {settings : Settings} {state : Commit} {holds : Text → Prop}
  (given : ∀ line ∈ state.lines, holds line)

include given in
theorem forall_delete (name : Text) : ∀ line ∈ (state.delete settings name).lines, holds line := by
  unfold delete
  split
  · rename_i splice removed
    intro line membership
    exact given line (subset_of_remove removed membership)
  · exact given

variable {block : Block}
  (rewritten : ∀ declaration, holds declaration →
    ∀ line ∈ block.rewritten declaration settings, holds line)

include given rewritten in
theorem forall_replace {splice : Splice}
    (replaced : Splice.replace block state.lines settings = .ok splice) :
    ∀ line ∈ splice.lines, holds line := by
  intro line membership
  rcases mem_of_mem_replace replaced membership with old | ⟨declaration, present, written⟩
  · exact given line old
  · exact rewritten declaration (given declaration present) line written

include given rewritten in
theorem forall_update : ∀ line ∈ (state.update settings block).lines, holds line := by
  unfold update
  split
  · rename_i splice replaced
    exact forall_replace given rewritten replaced
  · exact given

include given rewritten in
theorem forall_insert (empty : holds [])
    (rendered : ∀ line ∈ block.render (Splice.appendIndent state.lines settings) [] settings,
      holds line) :
    ∀ line ∈ (state.insert settings block).lines, holds line := by
  unfold insert
  split
  · rename_i splice added
    intro line membership
    rcases mem_of_mem_append added membership with old | rfl | written
    · exact given line old
    · exact empty
    · exact rendered line written
  · simp only
    split
    · rename_i splice replaced
      exact forall_replace given rewritten replaced
    · exact given

end Commit

section Run

variable {α : Type} {holds : List Text → Prop} {step : Commit → α → Commit} {actions : List α}
  (preserved : ∀ state : Commit, ∀ action ∈ actions, holds state.lines →
    holds (step state action).lines)
  {state : Commit} (start : holds state.lines)

include preserved start in
theorem foldl_lines : holds (actions.foldl step state).lines := by
  induction actions generalizing state with
  | nil => exact start
  | cons action rest inductionHypothesis =>
      refine inductionHypothesis (fun later other membership => ?_)
        (preserved state action List.mem_cons_self start)
      exact preserved later other (List.mem_cons_of_mem action membership)

include preserved start in
theorem foldl_congr_of_lines {other : Commit → α → Commit}
    (agree : ∀ state : Commit, ∀ action ∈ actions, holds state.lines →
      step state action = other state action) :
    actions.foldl step state = actions.foldl other state := by
  induction actions generalizing state with
  | nil => rfl
  | cons action rest inductionHypothesis =>
      rw [List.foldl_cons, List.foldl_cons, ← agree state action List.mem_cons_self start]
      apply inductionHypothesis
      · intro later next membership
        exact preserved later next (List.mem_cons_of_mem action membership)
      · exact preserved state action List.mem_cons_self start
      · intro later next membership
        exact agree later next (List.mem_cons_of_mem action membership)

end Run

end EnumBlocks
