import EnumBlocks.Proofs.Accounting

/-!
Blocks that a save should replace and cannot locate. They are reported, and apart from the report the
save comes to the same as if they were not in the outline at all; without them it is complete.
-/

namespace EnumBlocks

def Outline.without (outline : Outline) (names : List Text) : Outline :=
  ⟨outline.blocks.filter (·.name ∉ names), outline.distinct_filter _⟩

namespace Commit

def failing (commit : Commit) : List Text :=
  commit.errors.map SpanError.name

/-- Whether two commits did the same to the lines, whatever they report of what they could not do. -/
structure DoneAlike (commit other : Commit) : Prop where
  before : other.before = commit.before
  lines : other.lines = commit.lines
  deleted : other.deleted = commit.deleted
  updated : other.updated = commit.updated
  inserted : other.inserted = commit.inserted

section Step

variable (settings : Settings) {commit other : Commit}

theorem update_of_located {block : Block} {splice : Splice}
    (replaced : Splice.replace block commit.lines settings = .ok splice) :
    commit.update settings block =
      { commit with lines := splice.lines, updated := commit.updated ++ [block.name] } := by
  rw [update, replaced]

theorem failing_update_of_not_located {block : Block} {cause : SpanError}
    (refused : Splice.replace block commit.lines settings = .error cause) :
    (commit.update settings block).failing = commit.failing ++ [block.name] ∧
      commit.DoneAlike (commit.update settings block) := by
  have unlocated : spanOf block.name commit.lines settings.counting = .error cause := by
    unfold Splice.replace at refused
    cases located : spanOf block.name commit.lines settings.counting with
    | ok span => rw [located] at refused; contradiction
    | error other =>
        rw [located] at refused
        cases refused
        rfl
  rw [update, refused, failing, failing, List.map_append, List.map_singleton,
    name_of_spanOf_eq_error unlocated]
  exact ⟨rfl, rfl, rfl, rfl, rfl, rfl⟩

theorem errors_delete (name : Text) : (commit.delete settings name).errors = commit.errors := by
  unfold delete
  split <;> rfl

theorem errors_insert (block : Block) : (commit.insert settings block).errors = commit.errors := by
  unfold insert
  split
  · rfl
  · simp only
    split <;> rfl

namespace DoneAlike

variable (alike : commit.DoneAlike other)

include alike in
theorem update_of_located {block : Block} {splice : Splice}
    (replaced : Splice.replace block commit.lines settings = .ok splice) :
    (commit.update settings block).DoneAlike (other.update settings block) ∧
      (other.update settings block).errors = other.errors := by
  obtain ⟨before, lines, deleted, updated, inserted⟩ := alike
  have replacedThere : Splice.replace block other.lines settings = .ok splice := by
    rw [lines]
    exact replaced
  rw [Commit.update_of_located settings replaced, Commit.update_of_located settings replacedThere]
  exact ⟨⟨before, rfl, deleted, by rw [updated], inserted⟩, rfl⟩

include alike in
theorem insert (block : Block) :
    (commit.insert settings block).DoneAlike (other.insert settings block) := by
  obtain ⟨before, lines, deleted, updated, inserted⟩ := alike
  unfold Commit.insert
  rw [lines]
  cases Splice.append block commit.lines settings with
  | ok splice => exact ⟨before, rfl, deleted, updated, by rw [inserted]⟩
  | error conflict =>
      cases Splice.replace block commit.lines settings with
      | ok splice => exact ⟨before, rfl, deleted, by rw [updated], inserted⟩
      | error cause => exact ⟨before, rfl, deleted, updated, inserted⟩

include alike in
theorem foldl_insert (blocks : List Block) :
    (blocks.foldl (Commit.insert settings) commit).DoneAlike
      (blocks.foldl (Commit.insert settings) other) := by
  induction blocks generalizing commit other with
  | nil => exact alike
  | cons block rest inductionHypothesis => exact inductionHypothesis (alike.insert settings block)

end DoneAlike

end Step

theorem errors_foldl_insert (settings : Settings) (commit : Commit) (blocks : List Block) :
    (blocks.foldl (insert settings) commit).errors = commit.errors :=
  List.foldlRecOn (motive := fun held : Commit => held.errors = commit.errors) _ _
    (Eq.refl commit.errors)
    fun _ same block _ => (errors_insert settings block).trans same

theorem errors_foldl_delete (settings : Settings) (commit : Commit) (names : List Text) :
    (names.foldl (delete settings) commit).errors = commit.errors :=
  List.foldlRecOn (motive := fun held : Commit => held.errors = commit.errors) _ _
    (Eq.refl commit.errors)
    fun _ same name _ => (errors_delete settings name).trans same

theorem foldl_update_without_failing (settings : Settings) {state : Commit}
    (clean : state.errors = []) {blocks : List Block}
    (distinct : (blocks.map Block.name).Nodup) :
    (∀ name ∈ (blocks.foldl (update settings) state).failing, name ∈ blocks.map Block.name) ∧
      (blocks.foldl (update settings) state).DoneAlike
        ((blocks.filter (·.name ∉ (blocks.foldl (update settings) state).failing)).foldl
          (update settings) state) ∧
      ((blocks.filter (·.name ∉ (blocks.foldl (update settings) state).failing)).foldl
        (update settings) state).errors = [] := by
  -- By induction from the end: whether the last block fails is decided by the lines that the
  -- others leave.
  induction blocks using List.reverseRecOn with
  | nil =>
      refine ⟨?_, ⟨rfl, rfl, rfl, rfl, rfl⟩, clean⟩
      rw [List.foldl_nil, failing, clean]
      exact fun name membership => membership
  | append_singleton front last inductionHypothesis =>
      rw [List.map_append, List.nodup_append] at distinct
      obtain ⟨distinctFront, -, apart⟩ := distinct
      obtain ⟨known, alike, complete⟩ := inductionHypothesis distinctFront
      have fresh : last.name ∉ front.map Block.name := fun membership =>
        apart last.name membership last.name (List.mem_singleton_self _) rfl
      rw [List.foldl_append, List.foldl_cons, List.foldl_nil, List.map_append]
      cases replaced : Splice.replace last (front.foldl (update settings) state).lines settings with
      | ok splice =>
          have same : ((front.foldl (update settings) state).update settings last).failing =
              (front.foldl (update settings) state).failing := by
            rw [update_of_located settings replaced]
            rfl
          have spared : last.name ∉ (front.foldl (update settings) state).failing :=
            fun membership => fresh (known _ membership)
          rw [same, List.filter_append, List.filter_singleton, decide_eq_true spared,
            List.foldl_append]
          obtain ⟨alikeNow, errorsNow⟩ := alike.update_of_located settings replaced
          exact ⟨fun name membership => List.mem_append_left _ (known name membership), alikeNow,
            errorsNow.trans complete⟩
      | error cause =>
          obtain ⟨more, kept⟩ := failing_update_of_not_located settings replaced
          have others : (front ++ [last]).filter
              (·.name ∉ (front.foldl (update settings) state).failing ++ [last.name]) =
              front.filter (·.name ∉ (front.foldl (update settings) state).failing) := by
            rw [List.filter_append, List.filter_singleton]
            simp only [List.mem_append, List.mem_singleton, or_true, not_true_eq_false,
              decide_false, cond_false, List.append_nil]
            refine List.filter_congr fun block membership => ?_
            have different : block.name ≠ last.name := fun same =>
              fresh (same ▸ List.mem_map_of_mem membership)
            simp [different]
          rw [more, others]
          refine ⟨?_, ?_, complete⟩
          · intro name membership
            rcases List.mem_append.mp membership with earlier | final
            · exact List.mem_append_left _ (known name earlier)
            · exact List.mem_append_right _ final
          · exact ⟨alike.before.trans kept.before.symm, alike.lines.trans kept.lines.symm,
              alike.deleted.trans kept.deleted.symm, alike.updated.trans kept.updated.symm,
              alike.inserted.trans kept.inserted.symm⟩

end Commit

variable {outline : Outline} {pending : Pending} {baseline : Option Outline} {names : List Text}

theorem blocksToUpdate_without :
    blocksToUpdate (outline.without names) pending baseline =
      (blocksToUpdate outline pending baseline).filter (·.name ∉ names) := by
  rw [blocksToUpdate, blocksToUpdate, Outline.without, List.filter_filter, List.filter_filter]
  refine List.filter_congr fun block _ => ?_
  rw [Bool.and_comm]

theorem blocksToInsert_without (others : ∀ name ∈ names, name ∉ pending.created) :
    blocksToInsert (outline.without names) pending = blocksToInsert outline pending := by
  rw [blocksToInsert, blocksToInsert, Outline.without, List.filter_filter]
  refine List.filter_congr fun block _ => ?_
  by_cases created : block.name ∈ pending.created
  · have spared : block.name ∉ names := fun membership => others _ membership created
    simp [created, spared]
  · simp [created]

/-- A save does what it would do if the blocks that it cannot locate were not in the outline, and
without them nothing fails. -/
theorem commit_without_failing {lines : List Text} {settings : Settings} {whole : Commit}
    (saved : commit lines outline pending settings baseline = whole) :
    whole.DoneAlike (commit lines (outline.without whole.failing) pending settings baseline) ∧
      (commit lines (outline.without whole.failing) pending settings baseline).errors = [] := by
  have clean : (pending.deleted.names.foldl (Commit.delete settings) (Commit.start lines)).errors =
      [] := Commit.errors_foldl_delete settings _ _
  have distinct : ((blocksToUpdate outline pending baseline).map Block.name).Nodup :=
    outline.distinct_filter _
  obtain ⟨known, alike, complete⟩ := Commit.foldl_update_without_failing settings clean distinct
  have same : ((blocksToUpdate outline pending baseline).foldl (Commit.update settings)
      (pending.deleted.names.foldl (Commit.delete settings) (Commit.start lines))).failing =
      whole.failing := by
    rw [← saved]
    exact (congrArg (·.map SpanError.name) (Commit.errors_foldl_insert settings _ _)).symm
  rw [same] at known alike complete
  have others : ∀ name ∈ whole.failing, name ∉ pending.created := by
    intro name membership
    obtain ⟨block, updated, rfl⟩ := List.mem_map.mp (known name membership)
    have kept := (List.mem_filter.mp updated).2
    simp only [Bool.and_eq_true, decide_eq_true_eq] at kept
    exact kept.1.1
  subst saved
  rw [commit.eq_def _ (outline.without _), blocksToUpdate_without, blocksToInsert_without others]
  exact ⟨alike.foldl_insert settings _, (Commit.errors_foldl_insert settings _ _).trans complete⟩

end EnumBlocks
