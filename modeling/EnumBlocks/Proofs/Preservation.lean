import EnumBlocks.Proofs.Splice
import EnumBlocks.Proofs.StoredFile

/-!
What a save leaves of the text around a block whose entries were replaced: all of it, but for its line
breaks, which become those that the file is written with. In a file with breaks of one kind nothing
outside the block changes.
-/

namespace EnumBlocks

theorem WellEnded.take {lines : List EndedLine} (wellEnded : WellEnded lines) (count : Nat) :
    WellEnded (lines.take count) := by
  induction wellEnded generalizing count with
  | nil =>
      rw [List.take_nil]
      exact .nil
  | last oneLine nonempty =>
      cases count with
      | zero => exact .nil
      | succ count =>
          rw [List.take_succ_cons, List.take_nil]
          exact .last oneLine nonempty
  | @cons text ending rest oneLine isBreak whole others inductionHypothesis =>
      cases count with
      | zero => exact .nil
      | succ count =>
          rw [List.take_succ_cons]
          refine .cons oneLine isBreak ?_ (inductionHypothesis count)
          intro half first
          apply whole half
          rw [← List.take_append_drop count rest, printLines_append, List.head?_append, first]
          rfl

theorem WellEnded.drop {lines : List EndedLine} (wellEnded : WellEnded lines) (count : Nat) :
    WellEnded (lines.drop count) := by
  induction wellEnded generalizing count with
  | nil =>
      rw [List.drop_nil]
      exact .nil
  | last oneLine nonempty =>
      cases count with
      | zero => exact .last oneLine nonempty
      | succ count =>
          rw [List.drop_succ_cons, List.drop_nil]
          exact .nil
  | cons oneLine isBreak whole others inductionHypothesis =>
      cases count with
      | zero => exact .cons oneLine isBreak whole others
      | succ count => exact inductionHypothesis count

theorem WellEnded.ending_ne_nil {lines : List EndedLine} (wellEnded : WellEnded lines) {count : Nat}
    (inside : count < lines.length) : ∀ line ∈ lines.take count, line.ending ≠ [] := by
  induction wellEnded generalizing count with
  | nil => simp
  | last oneLine nonempty =>
      rw [List.length_singleton, Nat.lt_one_iff] at inside
      simp [inside]
  | cons oneLine isBreak whole others inductionHypothesis =>
      cases count with
      | zero => simp
      | succ count =>
          rw [List.take_succ_cons, List.forall_mem_cons]
          exact ⟨isBreak.ne_nil, inductionHypothesis (Nat.lt_of_succ_lt_succ inside)⟩

theorem lastEnded_drop {lines : List EndedLine} {count : Nat} (inside : count < lines.length) :
    lastEnded (lines.drop count) = lastEnded lines := by
  have nonempty : lines.drop count ≠ [] := by simpa using inside
  rw [lastEnded, lastEnded, ← List.getLast?_append_of_ne_nil (lines.take count) nonempty,
    List.take_append_drop]

def textBefore (text : Text) (index : Nat) : Text :=
  printLines ((endedLines text).take index)

/-- The text after the last character of a line, from its break on. -/
def textAfter (text : Text) (index : Nat) : Text :=
  match (endedLines text).drop index with
  | [] => []
  | line :: rest => line.ending ++ printLines rest

theorem exists_text_eq (text : Text) {first last : Nat} (ordered : first ≤ last) :
    ∃ middle, text = textBefore text first ++ middle ++ textAfter text last := by
  have whole := printLines_endedLines text
  have split : endedLines text = (endedLines text).take first ++
      (((endedLines text).drop first).take (last - first) ++ (endedLines text).drop last) := by
    have rest : (endedLines text).drop last = ((endedLines text).drop first).drop (last - first) := by
      rw [List.drop_drop, Nat.add_sub_cancel' ordered]
    rw [rest, List.take_append_drop, List.take_append_drop]
  rw [split, printLines_append, printLines_append] at whole
  unfold textAfter textBefore
  cases remaining : (endedLines text).drop last with
  | nil =>
      rw [remaining, printLines_nil, List.append_nil] at whole
      exact ⟨_, by rw [List.append_nil]; exact whole.symm⟩
  | cons line rest =>
      rw [remaining, printLines_cons] at whole
      refine ⟨printLines (((endedLines text).drop first).take (last - first)) ++ line.text, ?_⟩
      simpa [List.append_assoc] using whole.symm

theorem rebreak_textBefore (newline text : Text) {index : Nat}
    (inside : index < (Text.fileLines text).length) :
    rebreak newline (textBefore text index) =
      printLines (((Text.fileLines text).take index).map (EndedLine.mk · newline)) := by
  have wellEnded := wellEnded_endedLines text
  rw [← map_text_endedLines] at inside ⊢
  rw [List.length_map] at inside
  have ended := wellEnded.ending_ne_nil inside
  rw [rebreak, textBefore, (wellEnded.take index).endedLines_printLines, ← List.map_take,
    List.map_map]
  congr 1
  refine List.map_congr_left fun line membership => ?_
  rw [EndedLine.rebreak, if_neg (ended line membership)]
  rfl

theorem printLines_map (newline : Text) {lines : List Text} (nonempty : lines ≠ []) :
    printLines (lines.map (EndedLine.mk · newline)) = Text.joinWith newline lines ++ newline := by
  induction lines with
  | nil => contradiction
  | cons line rest inductionHypothesis =>
      cases rest with
      | nil => simp
      | cons next others =>
          rw [List.map_cons, printLines_cons, inductionHypothesis (List.cons_ne_nil next others),
            Text.joinWith_cons_cons]
          simp [List.append_assoc]

theorem rebreak_break_append (newline : Text) {ending : Text} (isBreak : IsBreak ending)
    {lines : List EndedLine} (wellEnded : WellEnded lines)
    (whole : ending = ['\r'] → (printLines lines).head? ≠ some '\n') :
    rebreak newline (ending ++ printLines lines) =
      newline ++ printLines (lines.map (EndedLine.rebreak newline)) := by
  rw [rebreak, endedLines_break isBreak whole, wellEnded.endedLines_printLines, List.map_cons,
    printLines_cons, EndedLine.rebreak, if_neg isBreak.ne_nil]
  rfl

theorem WellEnded.printLines_endWith_append {line : EndedLine} {rest : List EndedLine}
    (wellEnded : WellEnded (line :: rest)) (newline : Text) {lines : List Text}
    (nonempty : lines ≠ []) :
    printLines (endWith newline (lastEnded (line :: rest)) (lines ++ rest.map EndedLine.text)) =
      Text.joinWith newline lines ++ rebreak newline (line.ending ++ printLines rest) := by
  cases wellEnded with
  | last oneLine lineNonempty =>
      rw [List.map_nil, List.append_nil, printLines_endWith]
      simp [lastEnded, rebreak, endedLines]
  | @cons text ending rest oneLine isBreak whole others =>
      rw [rebreak_break_append newline isBreak others whole]
      cases rest with
      | nil =>
          rw [List.map_nil, List.append_nil, printLines_endWith]
          simp [lastEnded, isBreak.ne_nil, nonempty]
      | cons next rest =>
          rw [lastEnded_cons_cons, endWith_append _ _ _ (by simp), others.endWith_map_text,
            printLines_append, printLines_map newline nonempty, List.append_assoc]

theorem toText_replaced (text : Text) (marked : Bool) {first last : Nat} (ordered : first ≤ last)
    (inside : last < (Text.fileLines text).length) {lines : List Text} (nonempty : lines ≠ []) :
    TextFile.toText { TextFile.ofText text marked with
        lines := (Text.fileLines text).take first ++ lines ++
          (Text.fileLines text).drop (last + 1) } =
      rebreak (Text.detectBreak text) (textBefore text first) ++
        Text.joinWith (Text.detectBreak text) lines ++
          rebreak (Text.detectBreak text) (textAfter text last) := by
  have more : lines ++ (Text.fileLines text).drop (last + 1) ≠ [] := by simp [nonempty]
  -- The last replaced line loses its text and leaves its break, if it has one.
  have after : Text.joinWith (Text.detectBreak text) lines ++
      rebreak (Text.detectBreak text) (textAfter text last) =
        printLines (endWith (Text.detectBreak text) (TextFile.ofText text marked).trailingNewline
          (lines ++ (Text.fileLines text).drop (last + 1))) := by
    rw [← map_text_endedLines, List.length_map] at inside
    rw [trailingNewline_ofText, ← lastEnded_drop inside, ← map_text_endedLines, ← List.map_drop,
      textAfter]
    cases remaining : (endedLines text).drop last with
    | nil =>
        rw [List.drop_eq_nil_iff] at remaining
        omega
    | cons line rest =>
        have wellEnded := (wellEnded_endedLines text).drop last
        have later : (endedLines text).drop (last + 1) = rest := by
          rw [← List.drop_drop, remaining]
          rfl
        rw [remaining] at wellEnded
        rw [later, wellEnded.printLines_endWith_append _ nonempty]
  rw [toText_eq, List.append_assoc, List.append_assoc, endWith_append _ _ _ more,
    printLines_append, after, rebreak_textBefore _ _ (by omega)]
  rfl

theorem blocksToUpdate_put (outline : Outline) (block : Block) :
    blocksToUpdate (outline.put block) {} (some outline) =
      if outline.find? block.name = some block then [] else [block] := by
  by_cases same : outline.find? block.name = some block
  · rw [if_pos same]
    apply blocksToUpdate_eq_nil
    intro other membership _
    rcases Outline.mem_blocks_put.mp membership with rfl | ⟨old, -⟩
    · exact same
    · exact Outline.find?_eq_some_iff.mpr ⟨old, rfl⟩
  · rw [if_neg same]
    apply eq_singleton_of_mem_iff ((outline.put block).distinct_filter _)
    intro other
    constructor
    · intro membership
      obtain ⟨present, kept⟩ := List.mem_filter.mp membership
      rcases Outline.mem_blocks_put.mp present with new | ⟨old, different⟩
      · exact new
      · have found : outline.find? other.name = some other :=
          Outline.find?_eq_some_iff.mpr ⟨old, rfl⟩
        simp [found] at kept
    · rintro rfl
      exact List.mem_filter.mpr ⟨Outline.mem_blocks_put.mpr (.inl rfl), by simp [same]⟩

namespace Document

variable (document : Document) (saves : document.settings.savesUnchanged = false)

include saves in
/-- Saving a loaded document in which the entries of one block were replaced replaces the lines of
that block, unless the entries are those that were loaded. -/
theorem lines_commitTo_put {lines : List Text} {block : Block} {span : Span}
    (located : spanOf block.name lines document.settings.counting = .ok span) :
    let loaded := document.withLines lines
    let edited := { loaded with outline := loaded.outline.put block }
    (edited.commitTo lines).lines =
      if (Outline.ofLines lines).find? block.name = some block then lines
      else
        lines.take span.head ++ block.rewritten (lines.getD span.head []) document.settings ++
          lines.drop (span.closing + 1) := by
  intro loaded edited
  have based : edited.baseline = some (Outline.ofLines lines) := baseline_eq saves
  have updates : blocksToUpdate edited.outline edited.pending (some (Outline.ofLines lines)) = _ :=
    blocksToUpdate_put (Outline.ofLines lines) block
  have insertions : blocksToInsert edited.outline edited.pending = [] := by
    simp [blocksToInsert, edited, loaded, withLines]
  have whole : edited.commitTo lines =
      (blocksToUpdate edited.outline edited.pending edited.baseline).foldl
        (Commit.update document.settings) (Commit.start lines) := by
    rw [commitTo, commit, insertions]
    rfl
  rw [whole, based, updates]
  split
  · rfl
  · rw [List.foldl_cons, List.foldl_nil, Commit.update]
    simp only [Commit.start, replace_eq located]

include saves in
/-- The bytes after such a save: those before if no line changed, or else the block written anew
between texts that keep all but their breaks. -/
theorem savedBytes_put (marked : Bool) (block : Block) {text : Text} {span : Span}
    (located :
      spanOf block.name (Text.fileLines text) document.settings.counting = .ok span) :
    let lines := Text.fileLines text
    let loaded := document.withLines lines
    let edited := { loaded with outline := loaded.outline.put block }
    let written := block.rewritten (lines.getD span.head []) document.settings
    edited.savedBytes (TextFile.ofText text marked) (markedBytes marked text) =
      if (Outline.ofLines lines).find? block.name = some block ∨ written = span.extract lines then
        markedBytes marked text
      else
        markedBytes marked (rebreak (Text.detectBreak text) (textBefore text span.head) ++
          Text.joinWith (Text.detectBreak text) written ++
          rebreak (Text.detectBreak text) (textAfter text span.closing)) := by
  intro lines loaded edited written
  have bounds := spanOf_bounds located
  have now : (edited.commitTo (TextFile.ofText text marked).lines).lines = _ :=
    document.lines_commitTo_put saves located
  have parts := take_append_extract_append_drop located
  have saved := savedBytes_eq edited (TextFile.ofText text marked) (markedBytes marked text)
  rw [now] at saved
  by_cases known : (Outline.ofLines lines).find? block.name = some block
  · rw [if_pos (Or.inl known), saved, if_pos known]
    exact if_pos rfl
  · rw [saved, if_neg known]
    by_cases same : written = span.extract lines
    · have kept : lines.take span.head ++ written ++ lines.drop (span.closing + 1) = lines := by
        rw [same, List.append_assoc]
        exact parts.symm
      exact (if_pos kept).trans (if_pos (Or.inr same)).symm
    · have changed : lines.take span.head ++ written ++ lines.drop (span.closing + 1) ≠ lines := by
        intro kept
        rw [List.append_assoc] at kept
        exact same (List.append_cancel_right (List.append_cancel_left (kept.trans parts)))
      have nonempty : written ≠ [] := List.cons_ne_nil _ _
      rw [if_neg (not_or.mpr ⟨known, same⟩),
        ← toText_replaced text marked (bounds.1.trans bounds.2.1) bounds.2.2 nonempty]
      exact if_neg changed

end Document

namespace Session

def mixedBreaks : Text :=
  ['\n', '\r', '\n', 'e', 'n', 'u', 'm', ' ', 'A', '{', '}']

/-- A save changes a break in front of the block that was edited. -/
theorem changed_around_run_replaceEntries :
    let final := (opened onlyPath { savesUnchanged := false }
      (machineWith (Utf8.encode mixedBreaks))).run
        [.request .load, .request (.replaceEntries ['A'] [⟨['X'], [], []⟩]), .request .save]
    (Text.fileLines mixedBreaks).countP (declares ['A']) = 1 ∧
      spanOf ['A'] (Text.fileLines mixedBreaks) .perCharacter = .ok ⟨2, 2, 2⟩ ∧
      final.failures = [] ∧
      ∃ saved, final.world.tree.readFile onlyPath = .ok saved ∧
        ¬ ∃ middle, saved = Utf8.encode (textBefore mixedBreaks 2) ++ middle ++
          Utf8.encode (textAfter mixedBreaks 2) := by
  intro final
  have file : final.world.tree.readFile onlyPath =
      .ok (Utf8.encode (['\n', '\n', 'p', 'u', 'b', 'l', 'i', 'c', ' ', 'e', 'n', 'u', 'm', ' ', 'A',
        '\n', '{', '\n', ' ', ' ', ' ', ' ', 'X', ',', '\n', '}'])) := by
    decide +kernel
  have before : Utf8.encode (textBefore mixedBreaks 2) = [10, 13, 10] := by decide
  refine ⟨by decide, by decide, by decide +kernel, _, file, ?_⟩
  rintro ⟨middle, same⟩
  rw [before] at same
  have second := congrArg (·[1]?) same
  simp at second
  contradiction

/-- Loading a file, replacing the entries of a block and saving writes the block anew, if that changes
a line, and keeps the text in front of the block and the text after it, but for their breaks, and
those as well if all of them are the break that the file is written with. -/
theorem kept_around_run_replaceEntries {world : World} {path : Path} {location : Location}
    {content : Bytes} {file : TextFile} {settings : Settings} {name : Text} {span : Span}
    (stores : world.Stores path location content) (read : TextFile.ofBytes content = .ok file)
    (saves : settings.savesUnchanged = false) (loaded : name ∈ (Outline.ofLines file.lines).names)
    (located : spanOf name file.lines settings.counting = .ok span) (entries : List Entry) :
    ∃ text middle saved,
      content = markedBytes file.marked text ∧
      text = textBefore text span.head ++ middle ++ textAfter text span.closing ∧
      let final := (opened path settings world).run
        [.request .load, .request (.replaceEntries name entries), .request .save]
      let lines := Block.rewritten ⟨name, entries⟩ (file.lines.getD span.head []) settings
      let written := Text.joinWith file.newline lines
      final.failures = [] ∧ final.world.Stores path location saved ∧
      (saved =
        if (Outline.ofLines file.lines).find? name = some ⟨name, entries⟩ ∨
            lines = span.extract file.lines then content
        else
          markedBytes file.marked (rebreak file.newline (textBefore text span.head) ++ written ++
            rebreak file.newline (textAfter text span.closing))) ∧
      ((∀ ending ∈ breaksOf (textBefore text span.head) ++ breaksOf (textAfter text span.closing),
          ending = file.newline) →
        ∃ inside ∈ [middle, written],
          saved = markedBytes file.marked
            (textBefore text span.head ++ inside ++ textAfter text span.closing)) := by
  obtain ⟨text, shape, bytes, -⟩ := TextFile.ofBytes_eq_ok read
  have bounds := spanOf_bounds located
  obtain ⟨middle, parts⟩ := exists_text_eq text (bounds.1.trans bounds.2.1)
  have ownLines : file.lines = Text.fileLines text := congrArg TextFile.lines shape
  have newline : file.newline = Text.detectBreak text := congrArg TextFile.newline shape
  have opening : (opened path settings world).IsAt _ location content := isAt_opened stores
  have replacing :=
    (opening.load read).replaceEntries (Document.replaceEntries_eq loaded entries)
  obtain ⟨reloaded, -, saving⟩ := replacing.save read
  have outcome := Document.savedBytes_put { path := path, settings := settings } saves file.marked
    ⟨name, entries⟩ (ownLines ▸ located)
  simp only [← shape, ← bytes, ← ownLines, ← newline] at outcome
  generalize Document.savedBytes _ file content = saved at saving outcome
  refine ⟨text, middle, saved, bytes, parts, ?_⟩
  rw [run_request, run_request, run_request, run_nil]
  intro final lines written
  refine ⟨saving.failures, saving.stores, outcome, ?_⟩
  intro same
  rw [List.forall_mem_append] at same
  rw [rebreak_eq_self same.1, rebreak_eq_self same.2] at outcome
  split at outcome
  · exact ⟨middle, List.mem_cons_self, by rw [← parts, ← bytes]; exact outcome⟩
  · exact ⟨written, List.mem_cons_of_mem middle List.mem_cons_self, outcome⟩

def uniformBreaks : Text :=
  ['a', '\r', '\n', 'e', 'n', 'u', 'm', ' ', 'A', '{', '}', '\r', '\n', 'b']

theorem kept_around_run_replaceEntries_uniformBreaks :
    let final := (opened onlyPath { savesUnchanged := false }
      (machineWith (markedBytes true uniformBreaks))).run
        [.request .load, .request (.replaceEntries ['A'] [⟨['X'], [], []⟩]), .request .save]
    final.failures = [] ∧ ∃ inside,
      final.world.Stores onlyPath [['T']]
        (markedBytes true (['a', '\r', '\n'] ++ inside ++ ['\r', '\n', 'b'])) := by
  have read : TextFile.ofBytes (markedBytes true uniformBreaks) = .ok (.ofText uniformBreaks true) :=
    TextFile.ofBytes_markedBytes (.inl rfl)
  have located : spanOf ['A'] (TextFile.ofText uniformBreaks true).lines .perCharacter =
      .ok ⟨1, 1, 1⟩ := by decide
  obtain ⟨text, middle, saved, bytes, -, failures, stores, -, kept⟩ :=
    kept_around_run_replaceEntries (stores_machineWith (markedBytes true uniformBreaks)) read
      (rfl : Settings.savesUnchanged { savesUnchanged := false } = false) (by decide) located
      [⟨['X'], [], []⟩]
  obtain rfl := markedBytes_inj.mp bytes
  obtain ⟨inside, -, same⟩ := kept (by decide)
  exact ⟨failures, inside, same ▸ stores⟩

end Session

end EnumBlocks
