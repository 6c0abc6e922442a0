import EnumBlocks.Commit
import EnumBlocks.Proofs.Layout
import EnumBlocks.Proofs.Splice

/-!
Documents in the form in which blocks are written. Reading such a document gives back the blocks,
and saving them again changes no line, whatever stands around the blocks.
-/

namespace EnumBlocks

theorem commit_unedited (lines : List Text) (outline : Outline) (settings : Settings) :
    commit lines outline {} settings none =
      outline.blocks.foldl (Commit.update settings) (Commit.start lines) := by
  have updates : blocksToUpdate outline {} none = outline.blocks := by
    simp [blocksToUpdate]
  have insertions : blocksToInsert outline {} = [] := by
    simp [blocksToInsert]
  rw [commit, updates, insertions]
  rfl

/-- Whether a block stands in some lines as it is written there: replacing it by itself changes
nothing. -/
def Block.IsWrittenIn (block : Block) (lines : List Text) (settings : Settings) : Prop :=
  ∃ span, Splice.replace block lines settings = .ok ⟨lines, span⟩

theorem foldl_update_of_isWrittenIn {settings : Settings} {blocks : List Block} {commit : Commit}
    (written : ∀ block ∈ blocks, block.IsWrittenIn commit.lines settings) :
    blocks.foldl (Commit.update settings) commit =
      { commit with updated := commit.updated ++ blocks.map Block.name } := by
  induction blocks generalizing commit with
  | nil => simp
  | cons block rest inductionHypothesis =>
      rw [List.forall_mem_cons] at written
      obtain ⟨span, replaced⟩ := written.1
      have step : commit.update settings block =
          { commit with updated := commit.updated ++ [block.name] } := by
        rw [Commit.update, replaced]
      have remaining := @inductionHypothesis
        { commit with updated := commit.updated ++ [block.name] } written.2
      rw [List.foldl_cons, step, remaining]
      simp

/-- A written block and the lines in front of it. -/
structure Passage where
  before : List Text := []
  indent : Text := []
  attributes : Text := []
  block : Block

def Passage.lines (passage : Passage) (settings : Settings) : List Text :=
  passage.before ++ passage.block.render passage.indent passage.attributes settings

/-- The lines of passages that follow each other, and the lines after the last block. -/
def documentOf (passages : List Passage) (last : List Text) (settings : Settings) : List Text :=
  passages.flatMap (Passage.lines · settings) ++ last

/-- Whether the block of a passage is the only one in it, and is written as it is read. -/
structure Passage.Sound (passage : Passage) : Prop where
  plain : ∀ line ∈ passage.before, Declaration.ofLine? line = none
  blank : Text.isBlankText passage.indent = true
  list : IsAttributeList passage.attributes
  braceless : Braceless passage.attributes
  named : IsName passage.block.name
  entries : ∀ entry ∈ passage.block.entries, entry.Plain
  trimmed : ∀ entry ∈ passage.block.entries, entry.trimmed = entry

section Document

variable {settings : Settings} (readable : settings.Readable)

namespace Passage.Sound

variable {passage : Passage} (sound : passage.Sound)

include sound in
theorem readBack : passage.block.readBack = passage.block :=
  readBack_eq_self (fun entry membership => (sound.entries entry membership).named) sound.trimmed

include sound in
theorem blockPlain : passage.block.Plain :=
  ⟨sound.named, fun entry membership _ => sound.entries entry membership⟩

include readable sound in
theorem isBlockText :
    IsBlockText passage.block
      (passage.block.render passage.indent passage.attributes settings) := by
  have text := isBlockText_render readable sound.blank sound.blockPlain sound.list sound.braceless
  rw [sound.readBack] at text
  exact text

end Passage.Sound

include readable in
theorem laidOut_documentOf {passages : List Passage} (sound : ∀ passage ∈ passages, passage.Sound)
    (distinct : (passages.map (·.block.name)).Nodup) {last : List Text}
    (plain : ∀ line ∈ last, Declaration.ofLine? line = none) :
    LaidOut (passages.map Passage.block) (documentOf passages last settings) := by
  induction passages with
  | nil => exact .ofPlain plain
  | cons passage rest inductionHypothesis =>
      have own := sound passage (by simp)
      have distinctParts := List.nodup_cons.mp distinct
      have remaining := inductionHypothesis
        (fun other membership => sound other (by simp [membership])) distinctParts.2
      have whole : documentOf (passage :: rest) last settings =
          passage.before ++ (passage.block.render passage.indent passage.attributes settings ++
            documentOf rest last settings) := by
        simp [documentOf, Passage.lines]
      rw [whole]
      refine (LaidOut.ofPlain own.plain).append (.block (own.isBlockText readable) ?_ remaining)
        (by simp)
      rw [List.map_map]
      exact distinctParts.1

section Rendered

variable {block : Block} {indent attributes : Text} (blank : Text.isBlankText indent = true)
  (list : IsAttributeList attributes)

include readable blank list in
theorem rewritten_headD_render (other : Block) :
    other.rewritten ((block.render indent attributes settings).headD []) settings =
      other.render indent attributes settings := by
  rw [Block.render_eq, List.headD_cons, Block.rewritten, indentOf_headerLine readable blank list,
    attributesOf_headerLine readable blank list]

variable {opening : Nat}
  (extent : IsExtent block.name settings.counting (block.render indent attributes settings) opening)
  {front : List Text} (absent : Undeclared block.name front) (back : List Text)

include readable blank list extent absent in
/-- Where a written block is located as a whole, any other takes its place. -/
theorem replace_render {other : Block} (same : other.name = block.name) :
    ∃ span, Splice.replace other
      (front ++ (block.render indent attributes settings ++ back)) settings =
        .ok ⟨front ++ (other.render indent attributes settings ++ back), span⟩ := by
  have replaced := replace_surrounded extent absent back same
  rw [rewritten_headD_render readable blank list] at replaced
  exact ⟨_, replaced⟩

include readable blank list extent absent in
theorem isWrittenIn_render :
    block.IsWrittenIn (front ++ (block.render indent attributes settings ++ back)) settings :=
  replace_render readable blank list extent absent back rfl

end Rendered

include readable in
theorem isWrittenIn_documentOf (counting : settings.counting = .perCharacter)
    {passages : List Passage} (sound : ∀ passage ∈ passages, passage.Sound)
    (distinct : (passages.map (·.block.name)).Nodup) (last : List Text) {passage : Passage}
    (membership : passage ∈ passages) :
    passage.block.IsWrittenIn (documentOf passages last settings) settings := by
  obtain ⟨done, rest, rfl⟩ := List.append_of_mem membership
  have own := sound passage membership
  rw [List.map_append, List.nodup_append] at distinct
  have before : LaidOut (done.map Passage.block) (documentOf done passage.before settings) :=
    laidOut_documentOf readable (fun other earlier => sound other (List.mem_append_left _ earlier))
      distinct.1 own.plain
  have absent : Undeclared passage.block.name (documentOf done passage.before settings) := by
    refine before.undeclared own.named ?_
    rw [List.map_map]
    intro earlier
    exact distinct.2.2 _ earlier _ (by simp) rfl
  have extent := isExtent_render readable own.blank own.named own.blockPlain.flat own.list
    own.braceless
  rw [← counting] at extent
  have whole : documentOf (done ++ passage :: rest) last settings =
      documentOf done passage.before settings ++
        (passage.block.render passage.indent passage.attributes settings ++
          documentOf rest last settings) := by
    simp [documentOf, Passage.lines]
  rw [whole]
  exact isWrittenIn_render readable own.blank own.list extent absent _

include readable in
theorem foldl_update_documentOf (counting : settings.counting = .perCharacter)
    {done passages : List Passage} (sound : ∀ passage ∈ done ++ passages, passage.Sound)
    (distinct : ((done ++ passages).map (·.block.name)).Nodup) {last : List Text} {state : Commit}
    (held : state.lines = documentOf (done ++ passages) last settings) :
    (passages.map Passage.block).foldl (Commit.update settings) state =
      { state with updated := state.updated ++ passages.map (·.block.name) } := by
  have written : ∀ block ∈ passages.map Passage.block, block.IsWrittenIn state.lines settings := by
    rw [List.forall_mem_map, held]
    intro passage membership
    exact isWrittenIn_documentOf readable counting sound distinct last
      (List.mem_append_right _ membership)
  rw [foldl_update_of_isWrittenIn written, List.map_map]
  rfl

include readable in
/-- A document in the form in which blocks are written is read as its blocks, and saving them again
leaves every line as it is. -/
theorem commit_documentOf (counting : settings.counting = .perCharacter) {passages : List Passage}
    (sound : ∀ passage ∈ passages, passage.Sound)
    (distinct : (passages.map (·.block.name)).Nodup) {last : List Text}
    (plain : ∀ line ∈ last, Declaration.ofLine? line = none) :
    (Outline.ofLines (documentOf passages last settings)).blocks = passages.map Passage.block ∧
      commit (documentOf passages last settings)
          (Outline.ofLines (documentOf passages last settings)) {} settings none =
        { Commit.start (documentOf passages last settings) with
          updated := passages.map (·.block.name) } ∧
      (commit (documentOf passages last settings)
          (Outline.ofLines (documentOf passages last settings)) {} settings none).changed =
        false := by
  have read := (laidOut_documentOf readable sound distinct plain).blocks_ofLines
  have saved : commit (documentOf passages last settings)
      (Outline.ofLines (documentOf passages last settings)) {} settings none =
        { Commit.start (documentOf passages last settings) with
          updated := passages.map (·.block.name) } := by
    have folded := @foldl_update_documentOf settings readable counting [] passages sound distinct
      last (Commit.start (documentOf passages last settings)) rfl
    rw [commit_unedited, read]
    exact folded
  refine ⟨read, saved, ?_⟩
  rw [saved]
  simp [Commit.changed, Commit.start]

end Document

def unbalancedPassage : Passage where
  before := [['}']]
  indent := [' ']
  attributes := ['[', 'F', ']']
  block := ⟨['A'], [⟨['X'], ['1'], [' ', '{']⟩]⟩

theorem commit_documentOf_unbalanced :
    (commit (documentOf [unbalancedPassage] [['{']] {})
        (Outline.ofLines (documentOf [unbalancedPassage] [['{']] {})) {} {} none).changed =
      false := by
  have sound : unbalancedPassage.Sound := by
    refine ⟨by decide, by decide, ⟨?_, by decide⟩, by decide, by decide, ?_, by decide⟩
    · have closed : ']' ∉ ['F'] := by decide
      exact .bracketed closed .none
    · intro entry membership
      obtain rfl := List.mem_singleton.mp membership
      exact ⟨by decide, by decide, by decide, by decide, by decide, by decide, by decide, by decide⟩
  exact (commit_documentOf Settings.readable_default rfl (by simpa using sound) (by decide)
    (by decide)).2.2

end EnumBlocks
