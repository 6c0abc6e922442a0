import EnumBlocks.Proofs.Saving

/-!
The account that a save gives of the names it was asked to write or to remove. Every step has one
outcome for one name, and the lists of a commit are the names by outcome; since the steps are made
for different names, no name is in the account twice and none is left out.
-/

namespace EnumBlocks

def SpanError.name : SpanError → Text
  | .undeclared name => name
  | .unopened name _ => name
  | .unclosed name => name

theorem name_of_spanOf_eq_error {name : Text} {lines : List Text} {counting : Counting}
    {cause : SpanError} (unlocated : spanOf name lines counting = .error cause) :
    cause.name = name := by
  unfold spanOf at unlocated
  split at unlocated
  · cases unlocated
    rfl
  · split at unlocated
    · cases unlocated
      rfl
    · split at unlocated
      · cases unlocated
        rfl
      · contradiction

/-- What becomes of a name in one step of a save. -/
inductive Outcome where
  | deleted
  | nothingToDelete
  | updated
  | notUpdated
  | inserted
  deriving DecidableEq

def namesWith (kinds : List Outcome) (outcomes : List (Text × Outcome)) : List Text :=
  (outcomes.filter (·.2 ∈ kinds)).map Prod.fst

theorem namesWith_concat (kinds : List Outcome) (outcomes : List (Text × Outcome)) (name : Text)
    (outcome : Outcome) :
    namesWith kinds (outcomes ++ [(name, outcome)]) =
      namesWith kinds outcomes ++ if outcome ∈ kinds then [name] else [] := by
  unfold namesWith
  by_cases known : outcome ∈ kinds <;> simp [List.filter_append, known]

namespace Commit

/-- The names that a commit has in one of its lists. -/
def accounted (commit : Commit) : List Text :=
  commit.deleted ++ commit.updated ++ commit.inserted ++ commit.missing

/-- Whether the lists of a commit hold the names of some outcomes. -/
structure Records (commit : Commit) (outcomes : List (Text × Outcome)) : Prop where
  deleted : commit.deleted = namesWith [.deleted] outcomes
  updated : commit.updated = namesWith [.updated] outcomes
  inserted : commit.inserted = namesWith [.inserted] outcomes
  missing : commit.missing = namesWith [.nothingToDelete, .notUpdated] outcomes
  errors : commit.errors.map SpanError.name = namesWith [.notUpdated] outcomes

namespace Records

theorem start (lines : List Text) : (Commit.start lines).Records [] :=
  ⟨rfl, rfl, rfl, rfl, rfl⟩

section Step

variable (settings : Settings) {state : Commit} {outcomes : List (Text × Outcome)}
  (records : state.Records outcomes)

include records in
theorem delete (name : Text) :
    ∃ outcome ∈ [Outcome.deleted, .nothingToDelete],
      (state.delete settings name).Records (outcomes ++ [(name, outcome)]) := by
  obtain ⟨deleted, updated, inserted, missing, errors⟩ := records
  unfold Commit.delete
  split
  · exact ⟨.deleted, by simp, by constructor <;> simp [namesWith_concat, *]⟩
  · exact ⟨.nothingToDelete, by simp, by constructor <;> simp [namesWith_concat, *]⟩

include records in
theorem update (block : Block) :
    ∃ outcome ∈ [Outcome.updated, .notUpdated],
      (state.update settings block).Records (outcomes ++ [(block.name, outcome)]) := by
  obtain ⟨deleted, updated, inserted, missing, errors⟩ := records
  cases located : spanOf block.name state.lines settings.counting with
  | ok span =>
      rw [Commit.update, replace_eq located]
      exact ⟨.updated, by simp, by constructor <;> simp [namesWith_concat, *]⟩
  | error cause =>
      have failed : Splice.replace block state.lines settings = .error cause := by
        rw [Splice.replace, located]
        rfl
      have named := name_of_spanOf_eq_error located
      rw [Commit.update, failed]
      exact ⟨.notUpdated, by simp, by constructor <;> simp [namesWith_concat, *]⟩

include records in
/-- A block to add is never missing: if it is there, it was just located and can be replaced. -/
theorem insert (block : Block) :
    ∃ outcome ∈ [Outcome.inserted, .updated],
      (state.insert settings block).Records (outcomes ++ [(block.name, outcome)]) := by
  obtain ⟨deleted, updated, inserted, missing, errors⟩ := records
  cases located : spanOf block.name state.lines settings.counting with
  | ok span =>
      rw [Commit.insert, Splice.append, located]
      simp only [replace_eq located]
      exact ⟨.updated, by simp, by constructor <;> simp [namesWith_concat, *]⟩
  | error cause =>
      rw [Commit.insert, Splice.append, located]
      exact ⟨.inserted, by simp, by constructor <;> simp [namesWith_concat, *]⟩

end Step

theorem foldl {α : Type} {step : Commit → α → Commit} (nameOf : α → Text)
    (possible : Text → Outcome → Prop) {actions : List α}
    (each : ∀ action ∈ actions, ∀ (state : Commit) (outcomes : List (Text × Outcome)),
      state.Records outcomes → ∃ outcome, possible (nameOf action) outcome ∧
        (step state action).Records (outcomes ++ [(nameOf action, outcome)]))
    {state : Commit} {outcomes : List (Text × Outcome)} (records : state.Records outcomes) :
    ∃ more : List (Text × Outcome), more.map Prod.fst = actions.map nameOf ∧
      (∀ entry ∈ more, possible entry.1 entry.2) ∧
      (actions.foldl step state).Records (outcomes ++ more) := by
  induction actions generalizing state outcomes with
  | nil => exact ⟨[], rfl, by simp, by simpa using records⟩
  | cons action rest inductionHypothesis =>
      rw [List.forall_mem_cons] at each
      obtain ⟨outcome, first, next⟩ := each.1 state outcomes records
      obtain ⟨more, names, others, whole⟩ := inductionHypothesis each.2 next
      refine ⟨(nameOf action, outcome) :: more, by simp [names], ?_, ?_⟩
      · exact List.forall_mem_cons.mpr ⟨first, others⟩
      · rw [List.foldl_cons]
        simpa using whole

variable {commit : Commit} {outcomes : List (Text × Outcome)} (records : commit.Records outcomes)

include records in
theorem accounted_perm : commit.accounted.Perm (outcomes.map Prod.fst) := by
  rw [accounted, records.deleted, records.updated, records.inserted, records.missing,
    List.perm_iff_count]
  intro name
  clear records
  induction outcomes with
  | nil => rfl
  | cons entry rest inductionHypothesis =>
      obtain ⟨other, outcome⟩ := entry
      simp only [List.count_append, namesWith] at inductionHypothesis ⊢
      -- Each outcome has its name put into exactly one of the four lists.
      cases outcome <;> simp [List.count_cons] at inductionHypothesis ⊢ <;> omega

end Records

end Commit

/-- Whether a block is left alone by a save: it is neither new nor to be removed, and it is as it is
in the baseline. -/
def isLeftAlone (pending : Pending) (baseline : Option Outline) (block : Block) : Bool :=
  block.name ∉ pending.created && block.name ∉ pending.deleted &&
    baseline.any fun old => old.find? block.name == some block

/-- The names that a save is concerned with: those to be removed, and those of the other blocks that
it does not leave alone. -/
def concernedNames (outline : Outline) (pending : Pending) (baseline : Option Outline) :
    List Text :=
  pending.deleted.names ++
    (outline.blocks.filter fun block =>
      block.name ∉ pending.deleted && !isLeftAlone pending baseline block).map Block.name

section Concerned

variable (outline : Outline) (pending : Pending) (baseline : Option Outline)

theorem nodup_concernedNames : (concernedNames outline pending baseline).Nodup := by
  refine List.nodup_append.mpr
    ⟨pending.deleted.nodup_names, outline.distinct_filter _, ?_⟩
  rintro name deleted other kept rfl
  obtain ⟨block, membership, rfl⟩ := List.mem_map.mp kept
  have undeleted := (List.mem_filter.mp membership).2
  simp only [Bool.and_eq_true, decide_eq_true_eq] at undeleted
  exact undeleted.1 deleted

theorem blocksToUpdate_append_blocksToInsert_perm :
    (blocksToUpdate outline pending baseline ++ blocksToInsert outline pending).Perm
      (outline.blocks.filter fun block =>
        block.name ∉ pending.deleted && !isLeftAlone pending baseline block) := by
  have parts := List.filter_append_perm (fun block : Block => decide (block.name ∉ pending.created))
    (outline.blocks.filter fun block =>
      block.name ∉ pending.deleted && !isLeftAlone pending baseline block)
  rw [List.filter_filter, List.filter_filter] at parts
  have updates : blocksToUpdate outline pending baseline = outline.blocks.filter fun block =>
      decide (block.name ∉ pending.created) &&
        (block.name ∉ pending.deleted && !isLeftAlone pending baseline block) := by
    refine List.filter_congr fun block _ => ?_
    by_cases created : block.name ∈ pending.created <;>
      by_cases deleted : block.name ∈ pending.deleted <;> simp [isLeftAlone, created, deleted]
  have insertions : blocksToInsert outline pending = outline.blocks.filter fun block =>
      (!decide (block.name ∉ pending.created)) &&
        (block.name ∉ pending.deleted && !isLeftAlone pending baseline block) := by
    refine List.filter_congr fun block _ => ?_
    by_cases created : block.name ∈ pending.created <;>
      by_cases deleted : block.name ∈ pending.deleted <;> simp [isLeftAlone, created, deleted]
  rw [updates, insertions]
  exact parts

/-- Whether an outcome can be that of a name: only a name that is to be removed can be removed or
found to be absent, and only a block that is neither new nor to be removed can fail to be
replaced. -/
def Outcome.IsPossible (name : Text) : Outcome → Prop
  | deleted | nothingToDelete => name ∈ pending.deleted
  | notUpdated => name ∉ pending.deleted ∧ name ∉ pending.created
  | updated | inserted => name ∉ pending.deleted

/-- Every name that a save is concerned with has one outcome, a possible one. -/
theorem exists_records_commit (lines : List Text) (settings : Settings) :
    ∃ outcomes : List (Text × Outcome),
      (outcomes.map Prod.fst).Perm (concernedNames outline pending baseline) ∧
      (∀ entry ∈ outcomes, Outcome.IsPossible pending entry.1 entry.2) ∧
      (commit lines outline pending settings baseline).Records outcomes := by
  have removal : ∀ name ∈ pending.deleted.names, ∀ (state : Commit) outcomes,
      state.Records outcomes → ∃ outcome, Outcome.IsPossible pending (id name) outcome ∧
        (state.delete settings name).Records (outcomes ++ [(id name, outcome)]) := by
    intro name membership state outcomes records
    obtain ⟨outcome, kind, next⟩ := records.delete settings name
    refine ⟨outcome, ?_, next⟩
    rcases List.mem_pair.mp kind with rfl | rfl <;> exact membership
  have replacement : ∀ block ∈ blocksToUpdate outline pending baseline, ∀ (state : Commit) outcomes,
      state.Records outcomes → ∃ outcome, Outcome.IsPossible pending block.name outcome ∧
        (state.update settings block).Records (outcomes ++ [(block.name, outcome)]) := by
    intro block membership state outcomes records
    have conditions := (List.mem_filter.mp membership).2
    simp only [Bool.and_eq_true, decide_eq_true_eq] at conditions
    obtain ⟨outcome, kind, next⟩ := records.update settings block
    refine ⟨outcome, ?_, next⟩
    rcases List.mem_pair.mp kind with rfl | rfl
    · exact conditions.1.2
    · exact ⟨conditions.1.2, conditions.1.1⟩
  have addition : ∀ block ∈ blocksToInsert outline pending, ∀ (state : Commit) outcomes,
      state.Records outcomes → ∃ outcome, Outcome.IsPossible pending block.name outcome ∧
        (state.insert settings block).Records (outcomes ++ [(block.name, outcome)]) := by
    intro block membership state outcomes records
    have conditions := (List.mem_filter.mp membership).2
    simp only [Bool.and_eq_true, decide_eq_true_eq] at conditions
    obtain ⟨outcome, kind, next⟩ := records.insert settings block
    refine ⟨outcome, ?_, next⟩
    rcases List.mem_pair.mp kind with rfl | rfl <;> exact conditions.2
  obtain ⟨deletions, deletionNames, deletionsPossible, deleted⟩ :=
    Commit.Records.foldl id _ removal (Commit.Records.start lines)
  obtain ⟨updates, updateNames, updatesPossible, updated⟩ :=
    Commit.Records.foldl Block.name _ replacement deleted
  obtain ⟨insertions, insertionNames, insertionsPossible, inserted⟩ :=
    Commit.Records.foldl Block.name _ addition updated
  refine ⟨_, ?_, ?_, inserted⟩
  · rw [List.nil_append, List.map_append, List.map_append, deletionNames, updateNames,
      insertionNames, List.map_id, List.append_assoc, ← List.map_append]
    exact ((blocksToUpdate_append_blocksToInsert_perm outline pending baseline).map _).append_left _
  · simp only [List.nil_append, List.forall_mem_append]
    exact ⟨⟨deletionsPossible, updatesPossible⟩, insertionsPossible⟩

end Concerned

theorem mem_namesWith {kinds : List Outcome} {outcomes : List (Text × Outcome)} {name : Text} :
    name ∈ namesWith kinds outcomes ↔ ∃ outcome ∈ kinds, (name, outcome) ∈ outcomes := by
  simp only [namesWith, List.mem_map, List.mem_filter, decide_eq_true_eq]
  constructor
  · rintro ⟨⟨_, outcome⟩, ⟨membership, known⟩, rfl⟩
    exact ⟨outcome, known, membership⟩
  · rintro ⟨outcome, known, membership⟩
    exact ⟨_, ⟨membership, known⟩, rfl⟩

theorem filter_namesWith {pending : Pending} {outcomes : List (Text × Outcome)}
    (possible : ∀ entry ∈ outcomes, Outcome.IsPossible pending entry.1 entry.2) :
    (namesWith [.nothingToDelete, .notUpdated] outcomes).filter (· ∉ pending.deleted) =
      namesWith [.notUpdated] outcomes := by
  rw [namesWith, List.filter_map, List.filter_filter, namesWith]
  congr 1
  refine List.filter_congr fun entry membership => ?_
  have own := possible entry membership
  cases kind : entry.2 <;> simp_all [Outcome.IsPossible]

theorem Commit.Records.mem_inserted_or_updated {pending : Pending} {commit : Commit}
    {outcomes : List (Text × Outcome)} (records : commit.Records outcomes)
    (possible : ∀ entry ∈ outcomes, Outcome.IsPossible pending entry.1 entry.2) {name : Text}
    (entered : name ∈ outcomes.map Prod.fst) (created : name ∈ pending.created)
    (undeleted : name ∉ pending.deleted) : name ∈ commit.inserted ∨ name ∈ commit.updated := by
  obtain ⟨⟨name, outcome⟩, membership, rfl⟩ := List.mem_map.mp entered
  have own := possible _ membership
  rw [records.inserted, records.updated, mem_namesWith, mem_namesWith]
  cases outcome with
  | deleted => contradiction
  | nothingToDelete => contradiction
  | notUpdated => exact absurd created own.2
  | updated => exact .inr ⟨_, List.mem_singleton_self _, membership⟩
  | inserted => exact .inl ⟨_, List.mem_singleton_self _, membership⟩

/-- A save accounts for every name that it is concerned with exactly once. There is an error for
each missing block that was not to be removed, and a new block is never missing. -/
theorem commit_accounted (lines : List Text) (outline : Outline) (pending : Pending)
    (settings : Settings) (baseline : Option Outline) :
    let result := commit lines outline pending settings baseline
    result.accounted.Nodup ∧
      result.accounted.Perm (concernedNames outline pending baseline) ∧
      result.errors.map SpanError.name = result.missing.filter (· ∉ pending.deleted) ∧
      ∀ name ∈ outline.names, name ∈ pending.created → name ∉ pending.deleted →
        (name ∈ result.inserted ∨ name ∈ result.updated) ∧ name ∉ result.missing := by
  intro result
  obtain ⟨outcomes, names, possible, records⟩ :=
    exists_records_commit outline pending baseline lines settings
  have all : result.accounted.Perm (concernedNames outline pending baseline) :=
    records.accounted_perm.trans names
  have once : result.accounted.Nodup :=
    all.nodup_iff.mpr (nodup_concernedNames outline pending baseline)
  refine ⟨once, all, ?_, ?_⟩
  · rw [records.errors, records.missing, filter_namesWith possible]
  · intro name present created undeleted
    obtain ⟨block, membership, rfl⟩ := List.mem_map.mp present
    have concerned : block.name ∈ concernedNames outline pending baseline := by
      refine List.mem_append_right _ (List.mem_map_of_mem (List.mem_filter.mpr ⟨membership, ?_⟩))
      simp [isLeftAlone, created, undeleted]
    have written : block.name ∈ result.inserted ∨ block.name ∈ result.updated :=
      records.mem_inserted_or_updated possible (names.mem_iff.mpr concerned) created undeleted
    refine ⟨written, fun missing => ?_⟩
    have apart := (List.nodup_append.mp once).2.2
    refine apart block.name ?_ block.name missing rfl
    simp only [List.mem_append]
    exact written.elim .inr fun updated => .inl (.inr updated)

def unfinishedDocument : List Text :=
  [['e', 'n', 'u', 'm', ' ', 'A', '{', '}'], ['e', 'n', 'u', 'm', ' ', 'E', '{', '}'],
    ['e', 'n', 'u', 'm', ' ', 'B']]

/-- An outline that the document has in part only. -/
def partialOutline : Outline :=
  Outline.ofBlocks [⟨['A'], []⟩, ⟨['B'], []⟩, ⟨['C'], []⟩, ⟨['D'], []⟩, ⟨['F'], []⟩]

/-- Changes that overlap: a block is both new and to be removed. -/
def overlappingChanges : Pending :=
  ⟨.ofList [['A'], ['C'], ['D']], .ofList [['D'], ['E']]⟩

/-- Of the new blocks one is there and one is added, `D` and `E` are to be removed, `B` cannot be
replaced, and `F` is left alone. -/
theorem commit_accounted_overlappingChanges :
    let result := commit unfinishedDocument partialOutline overlappingChanges {}
      (some (.ofBlocks [⟨['F'], []⟩]))
    result.accounted.Perm [['D'], ['E'], ['A'], ['B'], ['C']] ∧
      result.errors.map SpanError.name = [['B']] ∧
      (['A'] ∈ result.inserted ∨ ['A'] ∈ result.updated) ∧ ['A'] ∉ result.missing := by
  intro result
  obtain ⟨-, all, errors, written⟩ := commit_accounted unfinishedDocument partialOutline
    overlappingChanges {} (some (.ofBlocks [⟨['F'], []⟩]))
  have concerned : concernedNames partialOutline overlappingChanges
      (some (.ofBlocks [⟨['F'], []⟩])) = [['D'], ['E'], ['A'], ['B'], ['C']] := by decide
  have missing : result.missing = [['D'], ['B']] := by decide
  rw [concerned] at all
  rw [missing] at errors
  exact ⟨all, errors, written ['A'] (by decide) (by decide) (by decide)⟩

end EnumBlocks
