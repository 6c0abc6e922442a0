import EnumBlocks.Proofs.Counting

/-!
Saving into lines with at most one brace of each kind and none in a comment. Every step of the save
leaves such lines, and on such lines both ways of counting braces do the same, so that the whole
save comes to the same under either.
-/

namespace EnumBlocks

def Settings.counted (settings : Settings) (counting : Counting) : Settings :=
  { settings with counting }

theorem Settings.IsBraceless.counted {settings : Settings} (braceless : settings.IsBraceless)
    (counting : Counting) : (settings.counted counting).IsBraceless :=
  ⟨braceless.modifier, braceless.indentUnit⟩

section Step

variable {state : Commit} (sparse : ∀ line ∈ state.lines, IsSparse line) (settings : Settings)

include sparse in
theorem delete_perLine (name : Text) :
    state.delete (settings.counted .perLine) name =
      state.delete (settings.counted .perCharacter) name := by
  have same : Splice.remove name state.lines (settings.counted .perLine) =
      Splice.remove name state.lines (settings.counted .perCharacter) := by
    simp only [Splice.remove, Settings.counted, spanOf_perLine sparse]
  rw [Commit.delete, Commit.delete, same]

include sparse in
theorem replace_perLine (block : Block) :
    Splice.replace block state.lines (settings.counted .perLine) =
      Splice.replace block state.lines (settings.counted .perCharacter) := by
  rw [Splice.replace, Splice.replace, Settings.counted, Settings.counted, spanOf_perLine sparse]
  rfl

include sparse in
theorem update_perLine (block : Block) :
    state.update (settings.counted .perLine) block =
      state.update (settings.counted .perCharacter) block := by
  rw [Commit.update, Commit.update, replace_perLine sparse]

include sparse in
theorem insert_perLine (block : Block) :
    state.insert (settings.counted .perLine) block =
      state.insert (settings.counted .perCharacter) block := by
  have same : Splice.append block state.lines (settings.counted .perLine) =
      Splice.append block state.lines (settings.counted .perCharacter) := by
    rw [Splice.append, Splice.append, Settings.counted, Settings.counted, spanOf_perLine sparse]
    rfl
  rw [Commit.insert, Commit.insert, same, replace_perLine sparse]

end Step

section Run

variable {state : Commit} (sparse : ∀ line ∈ state.lines, IsSparse line) {settings : Settings}
  (bracelessSettings : settings.IsBraceless) {blocks : List Block}
  (bracelessBlocks : ∀ block ∈ blocks, block.IsBraceless)

include sparse in
theorem sparse_deletions (settings : Settings) (names : List Text) :
    ∀ line ∈ (names.foldl (Commit.delete settings) state).lines, IsSparse line :=
  @foldl_lines _ (∀ line ∈ ·, IsSparse line) _ _
    (fun _ name _ held => Commit.forall_delete held name) _ sparse

include sparse bracelessSettings bracelessBlocks in
theorem sparse_updates :
    ∀ line ∈ (blocks.foldl (Commit.update settings) state).lines, IsSparse line :=
  @foldl_lines _ (∀ line ∈ ·, IsSparse line) _ _
    (fun _ block membership held => Commit.forall_update held fun _ declared =>
      isSparse_rewritten bracelessSettings (bracelessBlocks block membership) declared) _ sparse

include sparse in
theorem deletions_perLine (names : List Text) :
    names.foldl (Commit.delete (settings.counted .perLine)) state =
      names.foldl (Commit.delete (settings.counted .perCharacter)) state :=
  @foldl_congr_of_lines _ (∀ line ∈ ·, IsSparse line) _ _
    (fun _ name _ held => Commit.forall_delete held name) _ sparse _
    fun _ name _ held => delete_perLine held settings name

include sparse bracelessSettings bracelessBlocks in
theorem updates_perLine :
    blocks.foldl (Commit.update (settings.counted .perLine)) state =
      blocks.foldl (Commit.update (settings.counted .perCharacter)) state :=
  @foldl_congr_of_lines _ (∀ line ∈ ·, IsSparse line) _ _
    (fun _ block membership held => Commit.forall_update held fun _ declared =>
      isSparse_rewritten (bracelessSettings.counted .perLine) (bracelessBlocks block membership)
        declared) _ sparse _
    fun _ block _ held => update_perLine held settings block

include sparse bracelessSettings bracelessBlocks in
/-- A single block is added alike whatever it leaves behind, further ones if it leaves sparse lines.
-/
theorem insertions_perLine
    (uncommented : commentStart? settings.indentUnit = none ∨ blocks.length ≤ 1) :
    blocks.foldl (Commit.insert (settings.counted .perLine)) state =
      blocks.foldl (Commit.insert (settings.counted .perCharacter)) state := by
  rcases uncommented with plain | single
  · refine @foldl_congr_of_lines _ (∀ line ∈ ·, IsSparse line) _ _ ?_ _ sparse _ ?_
    · intro current block membership held
      have braceless := bracelessBlocks block membership
      refine Commit.forall_insert held (fun _ declared => ?_) (by decide) ?_
      · exact isSparse_rewritten (bracelessSettings.counted .perLine) braceless declared
      · exact isSparse_added (bracelessSettings.counted .perLine) braceless plain current.lines
    · intro current block _ held
      exact insert_perLine held settings block
  · rcases blocks with _ | ⟨block, _ | ⟨next, others⟩⟩
    · rfl
    · exact insert_perLine sparse settings block
    · simp at single

end Run

/-- In lines with at most one brace of each kind and none in a comment, both ways of counting braces
save blocks without braces alike. Where the unit of indentation begins a comment, no more than one
block may be added: what is written for it may end in such a comment. -/
theorem commit_perLine {lines : List Text} (sparse : ∀ line ∈ lines, IsSparse line)
    {outline : Outline} (bracelessBlocks : ∀ block ∈ outline.blocks, block.IsBraceless)
    {settings : Settings} (bracelessSettings : settings.IsBraceless) {pending : Pending}
    (uncommented : commentStart? settings.indentUnit = none ∨
      (blocksToInsert outline pending).length ≤ 1) (baseline : Option Outline) :
    commit lines outline pending (settings.counted .perLine) baseline =
      commit lines outline pending (settings.counted .perCharacter) baseline := by
  have toUpdate : ∀ block ∈ blocksToUpdate outline pending baseline, block.IsBraceless :=
    fun block membership => bracelessBlocks block (List.mem_filter.mp membership).1
  have toInsert : ∀ block ∈ blocksToInsert outline pending, block.IsBraceless :=
    fun block membership => bracelessBlocks block (List.mem_filter.mp membership).1
  have started : ∀ line ∈ (Commit.start lines).lines, IsSparse line := sparse
  have deleted := sparse_deletions started (settings.counted .perCharacter) pending.deleted.names
  have updated := sparse_updates deleted (bracelessSettings.counted .perCharacter) toUpdate
  rw [commit, commit, deletions_perLine started, updates_perLine deleted bracelessSettings toUpdate,
    insertions_perLine updated bracelessSettings toInsert uncommented]

/-- The first brace of a document is in an attribute, the last behind a name. -/
def attributedLines : List Text :=
  [['[', '{', ']', 'e', 'n', 'u', 'm', ' ', 'A'], ['}'], ['e', 'n', 'u', 'm', ' ', 'B', '{', '}']]

theorem commit_perLine_attributedLines :
    commit attributedLines ⟨[⟨['A'], [⟨['X'], [], []⟩]⟩, ⟨['C'], []⟩], by decide⟩
        ⟨NameSet.empty.insert ['C'], NameSet.empty.insert ['B']⟩
        (Settings.counted {} .perLine) none =
      commit attributedLines ⟨[⟨['A'], [⟨['X'], [], []⟩]⟩, ⟨['C'], []⟩], by decide⟩
        ⟨NameSet.empty.insert ['C'], NameSet.empty.insert ['B']⟩
        (Settings.counted {} .perCharacter) none := by
  apply commit_perLine
  · decide
  · decide
  · decide
  · exact .inl (by decide)

/-- A document that asks for one unit of indentation, and whose block has no braces. -/
def unopenedLines : List Text :=
  [['n', 'a', 'm', 'e', 's', 'p', 'a', 'c', 'e', ' ', 'N'], ['e', 'n', 'u', 'm', ' ', 'B']]

/-- Where two blocks are added behind a unit of indentation that begins a comment, one way of
counting takes the braces of the first for those of the block that it looks for, and the other does
not. -/
theorem commit_perLine_ne_unopenedLines :
    ∃ (lines : List Text) (outline : Outline) (pending : Pending) (settings : Settings),
      (∀ line ∈ lines, IsSparse line) ∧ (∀ block ∈ outline.blocks, block.IsBraceless) ∧
        settings.IsBraceless ∧
        (commit lines outline pending (settings.counted .perLine) none).inserted = [['A']] ∧
        (commit lines outline pending (settings.counted .perCharacter) none).inserted =
          [['A'], ['B']] :=
  ⟨unopenedLines, ⟨[⟨['A'], []⟩, ⟨['B'], []⟩], by decide⟩,
    ⟨(NameSet.empty.insert ['A']).insert ['B'], .empty⟩, { indentUnit := ['/', '/'] },
    by decide, by decide, by decide, by decide, by decide⟩

end EnumBlocks
