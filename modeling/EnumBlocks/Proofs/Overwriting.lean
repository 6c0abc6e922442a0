import EnumBlocks.Proofs.Convergence
import EnumBlocks.Proofs.Independence
import EnumBlocks.Proofs.Repetition

/-!
Saving a document, reading it, and saving it with other entries in one block. Every block stands in
the saved lines as it is written, so the second save replaces this one block only, and the last
replacement counts: the lines are those that a single save with the last entries leaves.
-/

namespace EnumBlocks

def replaceAllIn (blocks : List Block) (settings : Settings) (lines : List Text) : List Text :=
  blocks.foldl (fun held block => block.replaceIn held settings) lines

section Lines

variable {settings : Settings} {blocks : List Block} {lines : List Text}

theorem replaceAllIn_cons (block : Block) (rest : List Block) :
    replaceAllIn (block :: rest) settings lines =
      replaceAllIn rest settings (block.replaceIn lines settings) := rfl

theorem lines_foldl_update (commit : Commit) :
    (blocks.foldl (Commit.update settings) commit).lines =
      replaceAllIn blocks settings commit.lines := by
  induction blocks generalizing commit with
  | nil => rfl
  | cons block rest inductionHypothesis =>
      rw [List.foldl_cons, inductionHypothesis, lines_update, replaceAllIn_cons]

theorem lines_commit_unedited (outline : Outline) :
    (commit lines outline {} settings none).lines = replaceAllIn outline.blocks settings lines := by
  rw [commit_unedited, lines_foldl_update]
  rfl

theorem replaceAllIn_append_left {front : List Text}
    (absent : ∀ block ∈ blocks, Undeclared block.name front) :
    replaceAllIn blocks settings (front ++ lines) =
      front ++ replaceAllIn blocks settings lines := by
  induction blocks generalizing lines with
  | nil => rfl
  | cons block rest inductionHypothesis =>
      rw [List.forall_mem_cons] at absent
      rw [replaceAllIn_cons, replaceAllIn_cons, replaceIn_append_left absent.1,
        inductionHypothesis absent.2]

theorem replaceIn_eq_self {block : Block} (written : block.IsWrittenIn lines settings) :
    block.replaceIn lines settings = lines := by
  obtain ⟨span, replaced⟩ := written
  rw [Block.replaceIn, replaced]

theorem replaceAllIn_eq_self (written : ∀ block ∈ blocks, block.IsWrittenIn lines settings) :
    replaceAllIn blocks settings lines = lines := by
  induction blocks with
  | nil => rfl
  | cons block rest inductionHypothesis =>
      rw [List.forall_mem_cons] at written
      rw [replaceAllIn_cons, replaceIn_eq_self written.1, inductionHypothesis written.2]

theorem replaceIn_body {block : Block} {body : List Text} {opening : Nat}
    (extent : IsExtent block.name settings.counting body opening) (back : List Text) :
    block.replaceIn (body ++ back) settings =
      block.rewritten (body.headD []) settings ++ back := by
  have replaced := replace_surrounded extent (undeclared_nil block.name) back rfl
  rw [List.nil_append, List.nil_append] at replaced
  rw [Block.replaceIn, replaced]

end Lines

theorem undeclared_of_plain {line : Text} (plain : Declaration.ofLine? line = none) {name : Text}
    (named : IsName name) : Undeclared name [line] :=
  (undeclared_iff named).mpr (by simp [declaredNames, plain])

section Replaced

variable {settings : Settings} (readable : settings.Readable)
  (counting : settings.counting = .perCharacter)

theorem isName_of_mem_replaceBlock {last : Block} (lastNamed : IsName last.name)
    {blocks : List Block} (named : ∀ block ∈ blocks, IsName block.name) :
    ∀ block ∈ replaceBlock last blocks, IsName block.name := by
  intro block membership
  obtain ⟨old, present, rfl⟩ := List.mem_map.mp membership
  split
  · exact lastNamed
  · exact named old present

theorem replaceBlock_cons (last block : Block) (others : List Block) :
    replaceBlock last (block :: others) =
      (if block.name = last.name then last else block) :: replaceBlock last others := rfl

section Text

variable {block : Block} (plain : block.Plain)

include readable plain in
theorem undeclared_rewritten_of_plain {other : Text} (otherNamed : IsName other)
    (different : other ≠ block.name) (declaration : Text) :
    Undeclared other (block.rewritten declaration settings) :=
  undeclared_rewritten readable plain.named
    (fun entry present written => (plain.entries entry present written).named) otherNamed different
    declaration

include readable counting plain in
/-- What replaced a block is replaced as the block itself would have been. -/
theorem replaceIn_rewritten {last : Block} (same : last.name = block.name) {declaration : Text}
    (braceless : Braceless (attributesOf declaration)) (lines : List Text) :
    last.replaceIn (block.rewritten declaration settings ++ lines) settings =
      last.rewritten declaration settings ++ lines := by
  have blank := Text.isBlankText_indentOf declaration
  have list := isAttributeList_attributesOf declaration
  have written := isExtent_render readable blank plain.named plain.flat list braceless
  rw [← counting, ← same] at written
  rw [Block.rewritten, replaceIn_body written, rewritten_headD_render readable blank list,
    Block.rewritten]

include readable counting plain in
theorem replaceAllIn_body {body : List Text} {old : Block} (text : IsBlockText old body)
    (same : block.name = old.name) {others : List Block}
    (named : ∀ other ∈ others, IsName other.name) (fresh : block.name ∉ others.map Block.name)
    (lines : List Text) :
    replaceAllIn (block :: others) settings (body ++ lines) =
      block.rewritten (body.headD []) settings ++ replaceAllIn others settings lines := by
  obtain ⟨opening, extent⟩ := text.extent
  rw [← counting, ← same] at extent
  rw [replaceAllIn_cons, replaceIn_body extent]
  apply replaceAllIn_append_left
  intro other membership
  apply undeclared_rewritten_of_plain readable plain (named other membership)
  exact fun again => fresh (again ▸ List.mem_map_of_mem membership)

end Text

include readable counting in
/-- A block that is replaced after all blocks of a document were counts in the place of the one of
its name. -/
theorem replaceIn_replaceAllIn {blocks : List Block} {lines : List Text}
    (laidOut : LaidOut blocks lines) {updates : List Block}
    (names : updates.map Block.name = blocks.map Block.name)
    (plain : ∀ block ∈ updates, block.Plain) {last : Block} (lastPlain : last.Plain) :
    last.replaceIn (replaceAllIn updates settings lines) settings =
      replaceAllIn (replaceBlock last updates) settings lines := by
  induction laidOut generalizing updates with
  | nil =>
      obtain rfl := List.map_eq_nil_iff.mp names
      rfl
  | @line blocks lines line declaresNothing rest inductionHypothesis =>
      have front {name : Text} (named : IsName name) : Undeclared name [line] :=
        undeclared_of_plain declaresNothing named
      have replacedNamed := isName_of_mem_replaceBlock lastPlain.named
        fun block membership => (plain block membership).named
      rw [← List.singleton_append,
        replaceAllIn_append_left fun block membership => front (plain block membership).named,
        replaceIn_append_left (front lastPlain.named), inductionHypothesis names plain,
        replaceAllIn_append_left fun block membership => front (replacedNamed block membership)]
  | @block blocks lines old body text fresh rest inductionHypothesis =>
      cases updates with
      | nil => contradiction
      | cons block others =>
          rw [List.map_cons, List.map_cons, List.cons.injEq] at names
          obtain ⟨same, otherNames⟩ := names
          rw [List.forall_mem_cons] at plain
          obtain ⟨blockPlain, othersPlain⟩ := plain
          rw [← same, ← otherNames] at fresh
          have othersNamed : ∀ other ∈ others, IsName other.name := fun other membership =>
            (othersPlain other membership).named
          rw [replaceAllIn_body readable counting blockPlain text same othersNamed fresh,
            replaceBlock_cons]
          by_cases replacement : last.name = block.name
          · rw [replaceIn_rewritten readable counting blockPlain replacement
                text.bracelessAttributes, if_pos replacement.symm]
            rw [← replacement] at same fresh
            rw [replaceBlock_of_absent fresh,
              replaceAllIn_body readable counting lastPlain text same othersNamed fresh]
          · have absent := undeclared_rewritten_of_plain readable blockPlain lastPlain.named
              replacement (body.headD [])
            have replacedNamed := isName_of_mem_replaceBlock lastPlain.named othersNamed
            rw [← map_name_replaceBlock last] at fresh
            rw [replaceIn_append_left absent, inductionHypothesis otherNames othersPlain,
              if_neg (Ne.symm replacement),
              replaceAllIn_body readable counting blockPlain text same replacedNamed fresh]

end Replaced

/-- Whether a block is read back as it is wherever it is written. -/
structure Block.Faithful (block : Block) : Prop where
  named : IsName block.name
  clean : ∀ entry ∈ block.entries, entry.Clean
  read : ∀ entry ∈ block.entries, entry.IsRead

namespace Block.Faithful

variable {block : Block} (faithful : block.Faithful)

include faithful in
theorem plain : block.Plain :=
  ⟨faithful.named, fun entry membership _ => (faithful.clean entry membership).plain⟩

include faithful in
theorem readBack : block.readBack = block :=
  readBack_eq_self (fun entry membership => (faithful.read entry membership).1)
    fun entry membership => (faithful.read entry membership).2

include faithful in
theorem stable : block.Stable where
  plain := faithful.plain
  comments := fun entry membership _ =>
    congrArg Entry.comment (faithful.read entry membership).2

end Block.Faithful

theorem map_revised_eq {updates blocks : List Block}
    (names : updates.map Block.name = blocks.map Block.name)
    (distinct : (updates.map Block.name).Nodup) :
    blocks.map (revised updates) = updates.map Block.readBack := by
  have lengths := congrArg List.length names
  rw [List.length_map, List.length_map] at lengths
  refine List.ext_getElem (by simp [lengths]) fun place inside otherInside => ?_
  rw [List.length_map] at inside otherInside
  have same : blocks[place].name = updates[place].name := by
    have equality := List.getElem_of_eq names (by simpa using otherInside)
    rw [List.getElem_map, List.getElem_map] at equality
    exact equality.symm
  rw [List.getElem_map, List.getElem_map, revised, same,
    find?_name_of_mem distinct (List.getElem_mem otherInside)]

section Saved

variable {settings : Settings} (readable : settings.Readable)
  (counting : settings.counting = .perCharacter) {lines : List Text} (wellFormed : WellFormed lines)
  {outline : Outline} (names : outline.names = (Outline.ofLines lines).names)
  (faithful : ∀ block ∈ outline.blocks, block.Faithful)

include readable counting wellFormed names faithful in
/-- A document whose blocks were given other entries is read as these blocks after it was saved, and
each of them stands there as it is written. -/
theorem ofLines_commit_faithful :
    let saved := commit lines outline {} settings none
    LaidOut outline.blocks saved.lines ∧ Outline.ofLines saved.lines = outline ∧
      ∀ block ∈ outline.blocks, block.IsWrittenIn saved.lines settings := by
  intro saved
  have start : (Commit.start lines).Writes settings (Outline.ofLines lines).blocks [] :=
    ⟨⟨wellFormed.laidOut, rfl, rfl⟩, fun block membership written => by contradiction⟩
  have present : ∀ block ∈ outline.blocks,
      block.name ∈ (Outline.ofLines lines).blocks.map Block.name := by
    intro block membership
    have known : block.name ∈ outline.names := List.mem_map_of_mem membership
    rwa [names] at known
  obtain ⟨left, leftNames, writes⟩ := start.foldl_update readable counting
    (fun block membership => (faithful block membership).stable) present
  have holds := start.holds.foldl_update counting readable
    (fun block membership => (faithful block membership).plain) outline.distinct present
  have kept : outline.blocks.map Block.readBack = outline.blocks :=
    (List.map_congr_left fun block membership => (faithful block membership).readBack).trans
      (List.map_id' _)
  rw [← commit_unedited] at writes holds
  rw [map_revised_eq names outline.distinct, kept] at holds
  have read := holds.laidOut.blocks_ofLines
  obtain rfl : left = outline.blocks := writes.holds.laidOut.blocks_ofLines.symm.trans read
  refine ⟨holds.laidOut, Outline.eq_of_blocks_eq read, fun block membership =>
    writes.written block membership (List.mem_map_of_mem membership)⟩

include readable counting wellFormed names faithful in
/-- Saving other entries of one block in a saved document comes to the same as saving them at once.
-/
theorem lines_commit_put_commit {block : Block} (present : block.name ∈ outline.names)
    (blockFaithful : block.Faithful) :
    let saved := (commit lines outline {} settings none).lines
    (commit saved ((Outline.ofLines saved).put block) {} settings none).lines =
      (commit lines (outline.put block) {} settings none).lines := by
  intro saved
  obtain ⟨laidOut, read, written⟩ :=
    ofLines_commit_faithful readable counting wellFormed names faithful
  have plain : ∀ own ∈ outline.blocks, own.Plain := fun own membership =>
    (faithful own membership).plain
  have once : saved = replaceAllIn outline.blocks settings lines := lines_commit_unedited outline
  have again : replaceAllIn outline.blocks settings saved = saved := replaceAllIn_eq_self written
  rw [read, lines_commit_unedited, lines_commit_unedited, Outline.blocks_put_of_mem present]
  calc replaceAllIn (replaceBlock block outline.blocks) settings saved
      = block.replaceIn (replaceAllIn outline.blocks settings saved) settings :=
        (replaceIn_replaceAllIn readable counting laidOut rfl plain blockFaithful.plain).symm
    _ = block.replaceIn (replaceAllIn outline.blocks settings lines) settings := by
        rw [again, once]
    _ = replaceAllIn (replaceBlock block outline.blocks) settings lines :=
        replaceIn_replaceAllIn readable counting wellFormed.laidOut names plain blockFaithful.plain

end Saved

end EnumBlocks
