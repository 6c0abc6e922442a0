import EnumBlocks.Proofs.Loss
import EnumBlocks.Proofs.Rewriting

/-!
Adding blocks one after the other. None of the lines that are added opens a namespace, so that all
blocks get the indentation that the document asked for before, and none declares a block that is
still to be added, so that each of them goes to the end.
-/

namespace EnumBlocks

section Lines

variable {indent : Text} (blank : Text.isBlankText indent = true)

include blank in
theorem namespace?_indent_cons {mark : Char} (noBlank : Text.isBlank mark = false)
    (foreign : mark ≠ 'n') (rest : Text) : Splice.namespace? (indent ++ mark :: rest) = none := by
  have text : Text.dropBlank (indent ++ mark :: rest) = mark :: rest := by
    rw [Text.dropBlank_append blank, Text.dropBlank_cons noBlank]
  have other : ('n' == mark) = false := beq_eq_false_iff_ne.mpr (Ne.symm foreign)
  rw [Splice.namespace?, text, List.isPrefixOf?, other]
  rfl

include blank in
/-- A line whose first word is followed by a mark opens no namespace, not even where the word is the
keyword: the name of the namespace would have to come next. -/
theorem namespace?_eq_none_of_word {name gap : Text} (named : IsName name)
    (gapBlank : Text.isBlankText gap = true) {mark : Char} (noBlank : Text.isBlank mark = false)
    (noWord : Text.isWord mark = false) (noDot : mark ≠ '.') (rest : Text) :
    Splice.namespace? (indent ++ (name ++ (gap ++ mark :: rest))) = none := by
  have text : Text.dropBlank (indent ++ (name ++ (gap ++ mark :: rest))) =
      name ++ (gap ++ mark :: rest) := by
    rcases named.exists_cons with ⟨first, others, shape, word⟩
    rw [Text.dropBlank_append blank, shape, List.cons_append,
      Text.dropBlank_cons (Text.not_isBlank_of_isWord word)]
  rw [Splice.namespace?, text, Option.bind_eq_none_iff]
  intro after keyword
  refine if_pos ?_
  by_cases joined : Text.indentOf after = []
  · exact .inl joined
  -- The first word is the keyword and also the name, so what follows them is the same.
  have whole := List.isPrefixOf?_eq_some_iff_append_eq.mp keyword
  have keywordEnded : ∀ c ∈ after.head?, Text.isWord c = false := by
    intro c first
    exact Text.not_isWord_of_isBlank (Text.isBlank_of_mem_head? joined first)
  have nameEnded : ∀ c ∈ (gap ++ mark :: rest).head?, Text.isWord c = false := by
    intro c first
    cases gap with
    | nil =>
        cases first
        exact noWord
    | cons space blanks =>
        cases first
        exact Text.not_isWord_of_isBlank (Text.isBlankText_cons.mp gapBlank).1
  have keywordNamed : IsName ['n', 'a', 'm', 'e', 's', 'p', 'a', 'c', 'e'] := by decide
  have same : after = gap ++ mark :: rest := by
    rw [← (takeWhile_name_append keywordNamed keywordEnded).2, whole,
      (takeWhile_name_append named nameEnded).2]
  right
  rw [same, Text.dropBlank_append gapBlank, Text.dropBlank_cons noBlank]
  exact List.takeWhile_cons_of_neg (by simp [noWord, noDot])

variable {settings : Settings} (readable : settings.Readable)

include blank readable in
theorem namespace?_headerLine (name : Text) :
    Splice.namespace? (headerLine name indent [] settings) = none := by
  obtain ⟨c, tail, shape, start⟩ := modifierPart_start readable (' ' :: name)
  rw [headerLine_eq, attributePart, if_pos rfl, List.append_nil, shape]
  exact namespace?_indent_cons blank (not_isBlank_of_start start)
    (ne_of_mem_of_not_mem start (by decide)) tail

include blank in
theorem namespace?_render {entry : Entry} (named : IsName entry.name) :
    Splice.namespace? (entry.render indent) = none := by
  obtain ⟨gap, mark, rest, gapBlank, isMark, line⟩ := entry.exists_render_eq indent
  rw [line]
  rcases isMark with rfl | rfl
  · exact namespace?_eq_none_of_word blank named gapBlank (by decide) (by decide) (by decide) rest
  · exact namespace?_eq_none_of_word blank named gapBlank (by decide) (by decide) (by decide) rest

end Lines

/-- Lines that open no namespace ask for nothing, whatever depth they begin and end at. -/
theorem appendIndentFrom_append_of_plain {second : List Text}
    (plain : ∀ line ∈ second, Splice.namespace? line = none) (unit indent : Text) (depth : Int)
    (first : List Text) :
    Splice.appendIndentFrom unit indent depth (first ++ second) =
      Splice.appendIndentFrom unit indent depth first := by
  induction first generalizing indent depth with
  | cons line rest inductionHypothesis =>
      rw [List.cons_append, Splice.appendIndentFrom, Splice.appendIndentFrom, inductionHypothesis]
  | nil =>
      rw [List.nil_append, Splice.appendIndentFrom]
      induction second generalizing depth with
      | nil => rfl
      | cons line rest inductionHypothesis =>
          rw [List.forall_mem_cons] at plain
          rw [Splice.appendIndentFrom, plain.1, ite_self]
          exact inductionHypothesis plain.2 _

section Added

variable {settings : Settings} (readable : settings.Readable)

include readable in
theorem appendIndent_append_addedLines {block : Block} (writable : block.Writable)
    (lines document : List Text) :
    Splice.appendIndent (lines ++ block.addedLines document settings) settings =
      Splice.appendIndent lines settings := by
  apply appendIndentFrom_append_of_plain
  have blank := isBlankText_appendIndent readable document
  rw [Block.addedLines, List.forall_mem_cons]
  refine ⟨rfl, Block.forall_mem_render ?_ ?_ (namespace?_headerLine blank readable block.name)⟩
  · intro brace isBrace
    rcases isBrace with rfl | rfl
    · exact namespace?_indent_cons blank (by decide) (by decide) []
    · exact namespace?_indent_cons blank (by decide) (by decide) []
  · intro entry present written
    exact namespace?_render (isBlankText_entryIndent readable blank)
      (writable.entries entry present written)

include readable in
theorem undeclared_append_addedLines {block : Block} (writable : block.Writable) {other : Text}
    (named : IsName other) (different : other ≠ block.name) {lines : List Text}
    (absent : Undeclared other lines) (document : List Text) :
    Undeclared other (lines ++ block.addedLines document settings) := by
  rw [Block.addedLines, List.append_cons]
  exact undeclared_append.mpr ⟨undeclared_concat_nil absent,
    undeclared_render readable writable.named writable.entries named different
      (isBlankText_appendIndent readable document) isAttributeList_nil⟩

theorem insert_eq_of_undeclared {block : Block} {state : Commit}
    (absent : Undeclared block.name state.lines) :
    state.insert settings block =
      { state with
        lines := state.lines ++ block.addedLines state.lines settings
        inserted := state.inserted ++ [block.name] } := by
  rw [Commit.insert, append_eq absent, Block.addedLines]
  simp

include readable in
theorem foldl_insert_of_undeclared {blocks : List Block}
    (writable : ∀ block ∈ blocks, block.Writable) (distinct : (blocks.map Block.name).Nodup)
    {state : Commit} (absent : ∀ block ∈ blocks, Undeclared block.name state.lines) :
    blocks.foldl (Commit.insert settings) state =
      { state with
        lines := state.lines ++ blocks.flatMap (·.addedLines state.lines settings)
        inserted := state.inserted ++ blocks.map Block.name } := by
  induction blocks generalizing state with
  | nil => simp
  | cons block rest inductionHypothesis =>
      rw [List.forall_mem_cons] at writable absent
      rw [List.map_cons, List.nodup_cons] at distinct
      rw [List.foldl_cons, insert_eq_of_undeclared absent.1,
        inductionHypothesis writable.2 distinct.2]
      -- The lines of the first block change neither the indentation nor what is undeclared.
      · have same : ∀ later : Block, later.addedLines
            (state.lines ++ block.addedLines state.lines settings) settings =
              later.addedLines state.lines settings := by
          intro later
          rw [Block.addedLines, appendIndent_append_addedLines readable writable.1,
            Block.addedLines]
        simp [same]
      · intro later membership
        refine undeclared_append_addedLines readable writable.1
          (writable.2 later membership).named ?_ (absent.2 later membership) _
        intro equality
        exact distinct.1 (equality ▸ List.mem_map_of_mem membership)

theorem delete_eq_of_undeclared {name : Text} {state : Commit}
    (absent : Undeclared name state.lines) :
    state.delete settings name =
      { state with
        missing := state.missing ++ [name]
        notices := state.notices ++ [.nothingToDelete (.undeclared name)] } := by
  rw [Commit.delete, Splice.remove, spanOf_of_undeclared absent]
  rfl

theorem foldl_delete_of_undeclared {names : List Text} {state : Commit}
    (absent : ∀ name ∈ names, Undeclared name state.lines) :
    names.foldl (Commit.delete settings) state =
      { state with
        missing := state.missing ++ names
        notices :=
          state.notices ++ names.map fun name => .nothingToDelete (.undeclared name) } := by
  induction names generalizing state with
  | nil => simp
  | cons name rest inductionHypothesis =>
      rw [List.forall_mem_cons] at absent
      rw [List.foldl_cons, delete_eq_of_undeclared absent.1, inductionHypothesis]
      · simp
      · exact absent.2

include readable in
/-- New blocks that the document does not declare are added to it in order, each after an empty line
and all with the indentation that the document asked for before the first was added. -/
theorem commit_created {lines : List Text} {outline : Outline}
    (writable : ∀ block ∈ outline.blocks, block.Writable)
    (absent : ∀ block ∈ outline.blocks, Undeclared block.name lines) {pending : Pending}
    (created : ∀ block ∈ outline.blocks, block.name ∈ pending.created)
    (gone : ∀ name ∈ pending.deleted, name ∉ outline.names ∧ Undeclared name lines)
    (baseline : Option Outline) :
    commit lines outline pending settings baseline =
      { before := lines
        lines := lines ++ outline.blocks.flatMap (·.addedLines lines settings)
        inserted := outline.names
        missing := pending.deleted.names
        notices :=
          pending.deleted.names.map fun name => .nothingToDelete (.undeclared name) } := by
  have kept : ∀ block ∈ outline.blocks, block.name ∉ pending.deleted := by
    intro block membership deleted
    exact (gone _ deleted).1 (List.mem_map_of_mem membership)
  have updates : blocksToUpdate outline pending baseline = [] := by
    rw [blocksToUpdate, List.filter_eq_nil_iff]
    intro block membership
    simp [created block membership]
  have insertions : blocksToInsert outline pending = outline.blocks := by
    rw [blocksToInsert, List.filter_eq_self]
    intro block membership
    simp [created block membership, kept block membership]
  have deletions := @foldl_delete_of_undeclared settings pending.deleted.names (Commit.start lines)
    fun name deleted => (gone name deleted).2
  rw [commit, updates, insertions, deletions, List.foldl_nil]
  rw [foldl_insert_of_undeclared readable writable outline.distinct absent]
  rfl

end Added

def namespacedLines : List Text :=
  [['n', 'a', 'm', 'e', 's', 'p', 'a', 'c', 'e', ' ', 'N', ' ', '{'], ['}']]

def namespaceBlock : Block :=
  ⟨['A'], [⟨['n', 'a', 'm', 'e', 's', 'p', 'a', 'c', 'e'], ['M', '{'], []⟩, ⟨[' '], [], []⟩]⟩

/-- A block with an entry whose comment declares an enum and closes braces. -/
def enumBlock : Block :=
  ⟨['B'], [⟨['X'], [], ['}', '}', ' ', 'e', 'n', 'u', 'm', ' ', 'A']⟩]⟩

theorem commit_created_namespacedLines :
    let result := commit namespacedLines (.ofBlocks [namespaceBlock, enumBlock])
      ⟨.ofList [['A'], ['B']], .ofList [['C']]⟩ {} none
    result.lines = namespacedLines ++
        ([] :: namespaceBlock.render [' ', ' ', ' ', ' '] [] {}) ++
        ([] :: enumBlock.render [' ', ' ', ' ', ' '] [] {}) ∧
      result.inserted = [['A'], ['B']] ∧ result.missing = [['C']] := by
  intro result
  have blocks : (Outline.ofBlocks [namespaceBlock, enumBlock]).blocks =
      [namespaceBlock, enumBlock] := by decide
  have writable : ∀ block ∈ (Outline.ofBlocks [namespaceBlock, enumBlock]).blocks,
      block.Writable := by
    rw [blocks, List.forall_mem_cons, List.forall_mem_singleton]
    exact ⟨⟨by decide, by decide⟩, ⟨by decide, by decide⟩⟩
  have whole := @commit_created {} Settings.readable_default namespacedLines _ writable
    (by decide) ⟨.ofList [['A'], ['B']], .ofList [['C']]⟩ (by decide) (by decide) none
  have indent : Splice.appendIndent namespacedLines {} = [' ', ' ', ' ', ' '] := by decide
  refine ⟨(congrArg Commit.lines whole).trans ?_, (congrArg Commit.inserted whole).trans ?_,
    congrArg Commit.missing whole⟩
  · simp only [blocks, List.flatMap_cons, List.flatMap_nil, Block.addedLines, indent,
      List.append_nil, List.append_assoc]
  · decide

end EnumBlocks
