import EnumBlocks.Proofs.FixedPoint
import EnumBlocks.Proofs.Independence
import Mathlib.Data.List.Induction

/-!
What replacing blocks one after the other loses. A name is lost if all its declarations lie within
the lines that are located as a block, and the lines that replace the block do not declare it.
-/

namespace EnumBlocks

def Span.Covers (span : Span) (name : Text) (lines : List Text) : Prop :=
  Undeclared name (lines.take span.head) ∧ Undeclared name (lines.drop (span.closing + 1))

def Restores (settings : Settings) (lines : List Text) (block : Block) (name : Text) : Prop :=
  ∃ span, spanOf block.name lines settings.counting = .ok span ∧
    ¬ Undeclared name (block.rewritten (lines.getD span.head []) settings)

/-- Whether replacing a block loses the declarations of a name: all of them are replaced by lines
that do not declare it. -/
def Loses (settings : Settings) (lines : List Text) (block : Block) (name : Text) : Prop :=
  ∃ span, spanOf block.name lines settings.counting = .ok span ∧ span.Covers name lines ∧
    Undeclared name (block.rewritten (lines.getD span.head []) settings)

/-- Whether replacing blocks one after the other loses a name that no later replacement restores.
Each replacement is looked at in the lines that those before it left. -/
def Lost (settings : Settings) (state : Commit) (blocks : List Block) (name : Text) : Prop :=
  ∃ before block after, blocks = before ++ block :: after ∧
    Loses settings (before.foldl (Commit.update settings) state).lines block name ∧
    ∀ between later rest, after = between ++ later :: rest →
      ¬ Restores settings
        ((before ++ block :: between).foldl (Commit.update settings) state).lines later name

structure Block.Writable (block : Block) : Prop where
  named : IsName block.name
  entries : ∀ entry ∈ block.entries, entry.isWritten = true → IsName entry.name

theorem isSome_headLine?_iff {name : Text} {lines : List Text} :
    (headLine? name lines).isSome = true ↔ ¬ Undeclared name lines := by
  rw [← headLine?_eq_none_iff, Option.isSome_iff_ne_none]

section Step

variable {settings : Settings} {name : Text} {block : Block} {state : Commit}

theorem update_eq_of_ok {span : Span}
    (located : spanOf block.name state.lines settings.counting = .ok span) :
    (state.update settings block).lines =
      state.lines.take span.head ++ block.rewritten (state.lines.getD span.head []) settings ++
        state.lines.drop (span.closing + 1) := by
  rw [Commit.update, replace_eq located]

theorem update_eq_of_error {cause : SpanError}
    (unlocated : spanOf block.name state.lines settings.counting = .error cause) :
    (state.update settings block).lines = state.lines := by
  have failed : Splice.replace block state.lines settings = .error cause := by
    rw [Splice.replace, unlocated]
    rfl
  rw [Commit.update, failed]

theorem undeclared_update_iff :
    Undeclared name (state.update settings block).lines ↔
      Loses settings state.lines block name ∨
        Undeclared name state.lines ∧ ¬ Restores settings state.lines block name := by
  cases located : spanOf block.name state.lines settings.counting with
  | error cause =>
      rw [update_eq_of_error located]
      simp [Loses, Restores, located]
  | ok span =>
      have loses : Loses settings state.lines block name ↔ span.Covers name state.lines ∧
          Undeclared name (block.rewritten (state.lines.getD span.head []) settings) := by
        simp [Loses, located]
      have restores : Restores settings state.lines block name ↔
          ¬ Undeclared name (block.rewritten (state.lines.getD span.head []) settings) := by
        simp [Restores, located]
      rw [update_eq_of_ok located, loses, restores, not_not, undeclared_append, undeclared_append,
        Span.Covers]
      constructor
      · rintro ⟨⟨first, unwritten⟩, last⟩
        exact .inl ⟨⟨first, last⟩, unwritten⟩
      · rintro (⟨⟨first, last⟩, unwritten⟩ | ⟨absent, unwritten⟩)
        · exact ⟨⟨first, unwritten⟩, last⟩
        · exact ⟨⟨fun line membership => absent line (List.mem_of_mem_take membership), unwritten⟩,
            fun line membership => absent line (List.mem_of_mem_drop membership)⟩

theorem lost_concat_iff {blocks : List Block} :
    Lost settings state (blocks ++ [block]) name ↔
      Loses settings (blocks.foldl (Commit.update settings) state).lines block name ∨
        Lost settings state blocks name ∧
          ¬ Restores settings (blocks.foldl (Commit.update settings) state).lines block name := by
  constructor
  · rintro ⟨before, first, after, shape, loses, unrestored⟩
    rcases List.eq_nil_or_concat after with rfl | ⟨between, last, rfl⟩
    · obtain ⟨rfl, rfl⟩ := List.append_singleton_inj.mp shape
      exact .inl loses
    · rw [List.concat_eq_append] at shape unrestored
      rw [← List.cons_append, ← List.append_assoc, List.append_singleton_inj] at shape
      obtain ⟨rfl, rfl⟩ := shape
      refine .inr ⟨⟨before, first, between, rfl, loses, ?_⟩, unrestored between block [] rfl⟩
      rintro inner later rest rfl
      exact unrestored inner later (rest ++ [block]) (by simp)
  · rintro (loses | ⟨⟨before, first, after, rfl, loses, unrestored⟩, last⟩)
    · refine ⟨blocks, block, [], rfl, loses, ?_⟩
      intro between later rest shape
      simp at shape
    · refine ⟨before, first, after ++ [block], by simp, loses, ?_⟩
      intro between later rest shape
      rcases List.eq_nil_or_concat rest with rfl | ⟨inner, final, rfl⟩
      · obtain ⟨rfl, rfl⟩ := List.append_singleton_inj.mp shape
        exact last
      · rw [List.concat_eq_append, ← List.cons_append, ← List.append_assoc,
          List.append_singleton_inj] at shape
        exact unrestored between later inner shape.1

/-- What replacing blocks one after the other loses. -/
theorem undeclared_foldl_update_iff_lost (declared : ¬ Undeclared name state.lines)
    (blocks : List Block) :
    Undeclared name (blocks.foldl (Commit.update settings) state).lines ↔
      Lost settings state blocks name := by
  induction blocks using List.reverseRecOn with
  | nil => simp [Lost, declared]
  | append_singleton blocks last inductionHypothesis =>
      rw [List.foldl_concat, undeclared_update_iff, lost_concat_iff, inductionHypothesis]

end Step

section Names

variable {settings : Settings} (readable : settings.Readable) {name : Text} (named : IsName name)

include readable named in
theorem undeclared_rewritten_iff {block : Block} (writable : block.Writable) (declaration : Text) :
    Undeclared name (block.rewritten declaration settings) ↔ name ≠ block.name := by
  constructor
  · rintro absent rfl
    have header := (declares_headerLine_iff readable writable.named
      (Text.isBlankText_indentOf declaration) (isAttributeList_attributesOf declaration) named).mpr
      rfl
    have contrary := absent _ (by rw [Block.rewritten, Block.render_eq]; exact List.mem_cons_self)
    rw [header] at contrary
    contradiction
  · intro different
    exact undeclared_rewritten readable writable.named writable.entries named different declaration

include readable named in
theorem not_restores_of_undeclared {block : Block} (writable : block.Writable) {lines : List Text}
    (absent : Undeclared name lines) : ¬ Restores settings lines block name := by
  rintro ⟨span, located, written⟩
  rw [undeclared_rewritten_iff readable named writable, not_not] at written
  have headed := (spanOf_eq_ok_iff.mp located).1
  rw [← written, headLine?_eq_none_iff.mpr absent] at headed
  contradiction

include readable named in
theorem undeclared_foldl_update_iff {blocks : List Block}
    (writable : ∀ block ∈ blocks, block.Writable) (state : Commit) :
    Undeclared name (blocks.foldl (Commit.update settings) state).lines ↔
      Undeclared name state.lines ∨
        ∃ before block after, blocks = before ++ block :: after ∧
          Loses settings (before.foldl (Commit.update settings) state).lines block name := by
  induction blocks generalizing state with
  | nil => simp
  | cons block rest inductionHypothesis =>
      rw [List.forall_mem_cons] at writable
      have step : Undeclared name (state.update settings block).lines ↔
          Undeclared name state.lines ∨ Loses settings state.lines block name := by
        rw [undeclared_update_iff, or_comm]
        exact or_congr_left (and_iff_left_of_imp (not_restores_of_undeclared readable named
          writable.1))
      rw [List.foldl_cons, inductionHypothesis writable.2, step]
      constructor
      · rintro ((absent | lost) | ⟨before, later, after, rfl, lost⟩)
        · exact .inl absent
        · exact .inr ⟨[], block, rest, rfl, lost⟩
        · exact .inr ⟨block :: before, later, after, rfl, lost⟩
      · rintro (absent | ⟨before, later, after, shape, lost⟩)
        · exact .inl (.inl absent)
        · cases before with
          | nil =>
              rw [List.nil_append, List.cons.injEq] at shape
              rcases shape with ⟨rfl, rfl⟩
              exact .inl (.inr lost)
          | cons first others =>
              rw [List.cons_append, List.cons.injEq] at shape
              rcases shape with ⟨rfl, rfl⟩
              exact .inr ⟨others, later, after, rfl, lost⟩

end Names

end EnumBlocks
