import EnumBlocks.Proofs.FailedSave
import EnumBlocks.Proofs.WrittenLines
import Mathlib.Algebra.Order.BigOperators.Group.List
import Mathlib.Algebra.Order.Ring.Nat

/-!
The outline of running text, and that of a file which holds the text. Running text breaks at more
characters than a file does. Its outline is that of the file where each of them is a line feed, and
that of the file as it is where they divide no line of it.
-/

namespace EnumBlocks

theorem writtenLines_append (first second : List Text) :
    writtenLines (first ++ second) = writtenLines first ++ writtenLines second := by
  simp [writtenLines]

theorem writtenLines_eq_flatMap (lines : List Text) :
    writtenLines lines = lines.flatMap fun line => writtenLines [line] := by
  induction lines with
  | nil => rfl
  | cons line rest inductionHypothesis =>
      rw [List.flatMap_cons, ← inductionHypothesis, ← writtenLines_append]
      rfl

theorem writtenLines_cons (line : Text) (rest : List Text) :
    writtenLines (line :: rest) = writtenLines [line] ++ writtenLines rest :=
  writtenLines_append [line] rest

theorem writtenLines_singleton_eq_nil_iff {line : Text} :
    writtenLines [line] = [] ↔ Text.isBlankText line = true := by
  cases written : Text.isBlankText line with
  | true => simp [writtenLines, Text.strip_of_isBlankText written]
  | false => simp [writtenLines, Text.strip_ne_nil written]

theorem writtenLines_flatMap (lines : List Text) (pieces : Text → List Text) :
    writtenLines (lines.flatMap pieces) = lines.flatMap fun line => writtenLines (pieces line) := by
  simp only [writtenLines, List.map_flatMap, List.filter_flatMap]

theorem writtenLines_blank_cons {c : Char} (blank : Text.isBlank c = true) (line : Text)
    (rest : List Text) : writtenLines ((c :: line) :: rest) = writtenLines (line :: rest) := by
  have indent : Text.isBlankText [c] = true := Text.isBlankText_cons.mpr ⟨blank, rfl⟩
  have trimmed : Text.strip (c :: line) = Text.strip line := Text.strip_indent_append indent line
  simp only [writtenLines, List.map_cons, trimmed]

theorem writtenLines_mark_cons {c : Char} (mark : Text.isBlank c = false) (line : Text)
    (rest : List Text) :
    writtenLines ((c :: line) :: rest) = Text.strip (c :: line) :: writtenLines rest := by
  rw [writtenLines, List.map_cons, List.filter_cons_of_pos (by simp [Text.strip_cons mark])]
  rfl

theorem length_writtenLines_singleton_le (line : Text) : (writtenLines [line]).length ≤ 1 :=
  List.length_filter_le _ _

theorem splitOnP_flatMap {coarse fine : Char → Bool}
    (finer : ∀ c, coarse c = true → fine c = true) (text : Text) :
    (text.splitOnP coarse).flatMap (·.splitOnP fine) = text.splitOnP fine := by
  induction text with
  | nil => rfl
  | cons c rest inductionHypothesis =>
      obtain ⟨piece, others, pieces⟩ :=
        List.exists_cons_of_ne_nil (List.splitOnP_ne_nil coarse rest)
      rw [pieces, List.flatMap_cons] at inductionHypothesis
      rw [List.splitOnP_cons_eq_if_modifyHead, pieces]
      split
      · rename_i isBreak
        rw [List.flatMap_cons, List.flatMap_cons, inductionHypothesis,
          List.splitOnP_cons_eq_if_modifyHead, if_pos (finer c isBreak)]
        rfl
      · rw [List.modifyHead_cons, List.flatMap_cons, List.splitOnP_cons_eq_if_modifyHead,
          List.splitOnP_cons_eq_if_modifyHead, ← inductionHypothesis]
        split
        · rfl
        · obtain ⟨first, further, shape⟩ :=
            List.exists_cons_of_ne_nil (List.splitOnP_ne_nil fine piece)
          rw [shape]
          rfl

theorem splitOnP_map {isBreak other : Char → Bool} {change : Char → Char}
    (breaks : ∀ c, other (change c) = isBreak c) (kept : ∀ c, isBreak c = false → change c = c)
    (text : Text) : (text.map change).splitOnP other = text.splitOnP isBreak := by
  induction text with
  | nil => rfl
  | cons c rest inductionHypothesis =>
      rw [List.map_cons, List.splitOnP_cons_eq_if_modifyHead, List.splitOnP_cons_eq_if_modifyHead,
        breaks c, inductionHypothesis]
      split
      · rfl
      · rename_i plain
        rw [kept c (by simpa using plain)]

section Lines

variable {isBreak : Char → Bool}

section Pieces

variable (lineFeed : isBreak '\n' = true) (carriageReturn : isBreak '\r' = true)
  {yield : Text → List Text} (nothing : yield [] = [])

include nothing in
theorem flatMap_eq_headD_append (lines : List Text) :
    lines.flatMap yield = yield (lines.headD []) ++ lines.tail.flatMap yield := by
  cases lines with
  | nil => simp [nothing]
  | cons line rest => rfl

include lineFeed carriageReturn nothing in
/-- The lines of a text begin as its pieces between breaks do, and differ from them in empty pieces
alone: between the halves of a double break, and at the end. -/
theorem linesWith_headD_and_tail (text : Text) :
    (Text.linesWith isBreak text).headD [] = (text.splitOnP isBreak).headD [] ∧
      (Text.linesWith isBreak text).tail.flatMap yield =
        (text.splitOnP isBreak).tail.flatMap yield := by
  have whole := flatMap_eq_headD_append nothing
  -- The first line is compared as it is, since a character in front of the text goes on it.
  fun_induction Text.linesWith isBreak text with
  | case1 => exact ⟨rfl, rfl⟩
  | case2 rest inductionHypothesis =>
      rw [List.splitOnP_cons_eq_if_modifyHead, if_pos carriageReturn,
        List.splitOnP_cons_eq_if_modifyHead, if_pos lineFeed]
      refine ⟨rfl, ?_⟩
      rw [List.tail_cons, List.tail_cons, List.flatMap_cons, nothing, whole, inductionHypothesis.1,
        inductionHypothesis.2, ← whole]
      rfl
  | case3 c rest apart found inductionHypothesis =>
      rw [List.splitOnP_cons_eq_if_modifyHead, if_pos found]
      refine ⟨rfl, ?_⟩
      rw [List.tail_cons, List.tail_cons, whole, inductionHypothesis.1, inductionHypothesis.2,
        ← whole]
  | case4 c rest apart found inductionHypothesis =>
      obtain ⟨piece, others, pieces⟩ :=
        List.exists_cons_of_ne_nil (List.splitOnP_ne_nil isBreak rest)
      rw [List.splitOnP_cons_eq_if_modifyHead, if_neg found, pieces]
      rw [pieces] at inductionHypothesis
      obtain ⟨first, further⟩ := inductionHypothesis
      cases shape : Text.linesWith isBreak rest with
      | nil =>
          rw [shape] at first further
          exact ⟨congrArg (c :: ·) first, further⟩
      | cons line lines =>
          rw [shape] at first further
          exact ⟨congrArg (c :: ·) first, further⟩

include lineFeed carriageReturn nothing in
theorem flatMap_linesWith (text : Text) :
    (Text.linesWith isBreak text).flatMap yield = (text.splitOnP isBreak).flatMap yield := by
  obtain ⟨first, further⟩ := linesWith_headD_and_tail lineFeed carriageReturn nothing text
  rw [flatMap_eq_headD_append nothing, first, further, ← flatMap_eq_headD_append nothing]

end Pieces

section Blank

variable (blank : ∀ c, isBreak c = true → Text.isBlank c = true)

include blank in
theorem exists_append_of_splitOnP {text piece : Text} {others : List Text}
    (pieces : text.splitOnP isBreak = piece :: others) (nothing : writtenLines others = []) :
    ∃ blanks, Text.isBlankText blanks = true ∧ text = piece ++ blanks := by
  induction text generalizing piece others with
  | nil =>
      cases pieces
      exact ⟨[], rfl, rfl⟩
  | cons c rest inductionHypothesis =>
      obtain ⟨first, further, shape⟩ :=
        List.exists_cons_of_ne_nil (List.splitOnP_ne_nil isBreak rest)
      rw [List.splitOnP_cons_eq_if_modifyHead, shape] at pieces
      split at pieces
      · rename_i found
        cases pieces
        rw [writtenLines_cons, List.append_eq_nil_iff, writtenLines_singleton_eq_nil_iff] at nothing
        obtain ⟨blanks, blankBehind, rfl⟩ := inductionHypothesis shape nothing.2
        have blankRest := Text.isBlankText_append.mpr ⟨nothing.1, blankBehind⟩
        exact ⟨c :: (first ++ blanks), Text.isBlankText_cons.mpr ⟨blank c found, blankRest⟩, rfl⟩
      · cases pieces
        obtain ⟨blanks, blankBehind, rfl⟩ := inductionHypothesis shape nothing
        exact ⟨blanks, blankBehind, rfl⟩

include blank in
/-- A text of which at most one piece holds more than blanks is that piece, blanks around it not
counted. -/
theorem writtenLines_splitOnP {text : Text}
    (undivided : (writtenLines (text.splitOnP isBreak)).length ≤ 1) :
    writtenLines (text.splitOnP isBreak) = writtenLines [text] := by
  induction text with
  | nil => rfl
  | cons c rest inductionHypothesis =>
      obtain ⟨piece, others, pieces⟩ :=
        List.exists_cons_of_ne_nil (List.splitOnP_ne_nil isBreak rest)
      cases mark : Text.isBlank c with
      | true =>
          have same : writtenLines ((c :: rest).splitOnP isBreak) =
              writtenLines (rest.splitOnP isBreak) := by
            rw [List.splitOnP_cons_eq_if_modifyHead]
            split
            · rfl
            · rw [pieces]
              exact writtenLines_blank_cons mark piece others
          rw [same] at undivided ⊢
          rw [inductionHypothesis undivided, writtenLines_blank_cons mark]
      | false =>
          -- The first piece is written, so that only blanks can be behind it.
          have unbroken : ¬ isBreak c = true := by
            intro found
            rw [blank c found] at mark
            contradiction
          rw [List.splitOnP_cons_eq_if_modifyHead, if_neg unbroken, pieces, List.modifyHead_cons,
            writtenLines_mark_cons mark] at undivided ⊢
          have nothing : writtenLines others = [] :=
            List.length_eq_zero_iff.mp (Nat.le_zero.mp (Nat.le_of_succ_le_succ undivided))
          obtain ⟨blanks, blankBehind, rfl⟩ := exists_append_of_splitOnP blank pieces nothing
          have trimmed : Text.strip (c :: (piece ++ blanks)) = Text.strip (c :: piece) :=
            @Text.strip_append_blank [] blanks rfl blankBehind (c :: piece)
          rw [writtenLines_mark_cons mark, trimmed, nothing]
          rfl

end Blank

end Lines

theorem isBlank_of_isTextBreak {c : Char} (isBreak : Text.isTextBreak c = true) :
    Text.isBlank c = true := by
  simp only [Text.isTextBreak, Text.isLineBreak, Bool.or_eq_true, beq_iff_eq, or_assoc] at isBreak
  rcases isBreak with rfl | rfl | rfl | rfl | rfl | rfl | rfl | rfl | rfl | rfl <;> rfl

/-- Whether the further breaks of running text leave a line of a file in one piece, blanks around it
not counted. -/
def IsUndivided (line : Text) : Prop :=
  (writtenLines (Text.textLines line)).length ≤ 1

instance (line : Text) : Decidable (IsUndivided line) :=
  inferInstanceAs (Decidable (_ ≤ _))

def feedForBreak (c : Char) : Char :=
  if Text.isTextBreak c && !Text.isLineBreak c then '\n' else c

theorem isLineBreak_feedForBreak (c : Char) :
    Text.isLineBreak (feedForBreak c) = Text.isTextBreak c := by
  rw [feedForBreak]
  cases lineBreak : Text.isLineBreak c with
  | true => simp [Text.isTextBreak, lineBreak]
  | false =>
      cases textBreak : Text.isTextBreak c with
      | true => rfl
      | false => exact lineBreak

theorem feedForBreak_of_not_isTextBreak (c : Char) (plain : Text.isTextBreak c = false) :
    feedForBreak c = c := by
  rw [feedForBreak, plain]
  rfl

/-- The text with a line feed in the place of every break that is none in a file. -/
def withLineFeeds (text : Text) : Text :=
  text.map feedForBreak

theorem writtenLines_linesWith {isBreak : Char → Bool} (lineFeed : isBreak '\n' = true)
    (carriageReturn : isBreak '\r' = true) (text : Text) :
    writtenLines (Text.linesWith isBreak text) = writtenLines (text.splitOnP isBreak) := by
  rw [writtenLines_eq_flatMap, flatMap_linesWith lineFeed carriageReturn rfl,
    ← writtenLines_eq_flatMap]

theorem writtenLines_fileLines_withLineFeeds (text : Text) :
    writtenLines (Text.fileLines (withLineFeeds text)) = writtenLines (Text.textLines text) := by
  rw [Text.fileLines, writtenLines_linesWith rfl rfl, withLineFeeds,
    splitOnP_map isLineBreak_feedForBreak feedForBreak_of_not_isTextBreak, Text.textLines,
    writtenLines_linesWith rfl rfl]

theorem writtenLines_textLines (text : Text) :
    writtenLines (Text.textLines text) =
      (Text.fileLines text).flatMap fun line => writtenLines (Text.textLines line) := by
  have finer : ∀ c, Text.isLineBreak c = true → Text.isTextBreak c = true := by
    intro c lineBreak
    simp [Text.isTextBreak, lineBreak]
  have pieces : ∀ line, writtenLines (Text.textLines line) =
      writtenLines (line.splitOnP Text.isTextBreak) := writtenLines_linesWith rfl rfl
  rw [pieces, ← splitOnP_flatMap finer, writtenLines_flatMap, Text.fileLines,
    flatMap_linesWith rfl rfl rfl]
  simp only [pieces]

theorem writtenLines_textLines_of_isUndivided {line : Text} (undivided : IsUndivided line) :
    writtenLines (Text.textLines line) = writtenLines [line] := by
  rw [IsUndivided, Text.textLines, writtenLines_linesWith rfl rfl] at undivided
  rw [Text.textLines, writtenLines_linesWith rfl rfl]
  exact writtenLines_splitOnP (fun c => isBlank_of_isTextBreak) undivided

theorem length_writtenLines_le_textLines (line : Text) :
    (writtenLines [line]).length ≤ (writtenLines (Text.textLines line)).length := by
  by_contra less
  have few := length_writtenLines_singleton_le line
  have undivided : IsUndivided line := by
    rw [IsUndivided]
    omega
  rw [writtenLines_textLines_of_isUndivided undivided] at less
  exact less (Nat.le_refl _)

/-- Running text has the written lines of a file that holds it exactly if no line is divided. -/
theorem writtenLines_textLines_eq_iff (text : Text) :
    writtenLines (Text.textLines text) = writtenLines (Text.fileLines text) ↔
      ∀ line ∈ Text.fileLines text, IsUndivided line := by
  rw [writtenLines_textLines, writtenLines_eq_flatMap (Text.fileLines text)]
  constructor
  · intro same
    -- A line that is divided would have more pieces than the file has lines for it.
    by_contra divided
    simp only [not_forall] at divided
    obtain ⟨line, membership, divided⟩ := divided
    have more : ((Text.fileLines text).map fun other => (writtenLines [other]).length).sum <
        ((Text.fileLines text).map fun other =>
          (writtenLines (Text.textLines other)).length).sum := by
      apply List.sum_lt_sum _ _ fun other _ => length_writtenLines_le_textLines other
      refine ⟨line, membership, ?_⟩
      have few := length_writtenLines_singleton_le line
      rw [IsUndivided] at divided
      omega
    have lengths := congrArg List.length same
    rw [List.length_flatMap, List.length_flatMap] at lengths
    exact absurd lengths.symm (Nat.ne_of_lt more)
  · intro undivided
    exact List.flatMap_congr fun line membership =>
      writtenLines_textLines_of_isUndivided (undivided line membership)

/-- A document is loaded with the outline of the lines of its file. Read as running text, what the
file holds has the outline that it would have if each further break of running text were a line
feed; that is the outline which is loaded, unless such a break divides a line. -/
theorem outline_textLines {document : Document} {world : World} {marked : Bool} {text : Text}
    (apart : marked = true ∨ text.head? ≠ some markCharacter)
    (stored : world.tree.readFile document.path = .ok (markedBytes marked text)) :
    ∃ loaded after,
      (document.load : StateM World _) world =
        (.ok (TextFile.ofText text marked, loaded), after) ∧
      loaded.outline = Outline.ofLines (Text.fileLines text) ∧
      Outline.ofLines (Text.textLines text) =
        Outline.ofLines (Text.fileLines (withLineFeeds text)) ∧
      ((∀ line ∈ Text.fileLines text, IsUndivided line) →
        Outline.ofLines (Text.textLines text) = loaded.outline) := by
  have read : world.textFile document.path = .ok (TextFile.ofText text marked) := by
    rw [World.textFile, stored]
    simp only [TextFile.ofBytes_markedBytes apart]
  obtain ⟨after, loading⟩ := Document.exists_load read
  refine ⟨_, after, loading, rfl, ?_, ?_⟩
  · rw [← outline_writtenLines, ← writtenLines_fileLines_withLineFeeds, outline_writtenLines]
  · intro undivided
    have same := (writtenLines_textLines_eq_iff text).mpr undivided
    rw [← outline_writtenLines, same, outline_writtenLines]
    rfl

def dividedComment : Text :=
  ['e', 'n', 'u', 'm', ' ', 'A', '{', '\n', 'X', ',', '/', '/', 'a', '\u2028', 'b', '\n', '}']

def pagedBlock : Text :=
  ['e', 'n', 'u', 'm', ' ', 'A', '{', '\x0c', '\n', '\x0c', '\n', 'X', ',', '\n', '}']

/-- In the file the separator belongs to the comment; running text has another entry behind it. The
form feeds divide no line. -/
theorem outline_textLines_dividedComment :
    (∃ loaded after,
      (Document.load { path := onlyPath } : StateM World _)
          (machineWith (markedBytes false dividedComment)) =
        (.ok (TextFile.ofText dividedComment false, loaded), after) ∧
      loaded.outline.blocks = [⟨['A'], [⟨['X'], [], ['a', '\u2028', 'b']⟩]⟩] ∧
      (Outline.ofLines (Text.textLines dividedComment)).blocks =
        [⟨['A'], [⟨['X'], [], ['a']⟩, ⟨['b'], [], []⟩]⟩]) ∧
    ∃ loaded after,
      (Document.load { path := onlyPath } : StateM World _)
          (machineWith (markedBytes true pagedBlock)) =
        (.ok (TextFile.ofText pagedBlock true, loaded), after) ∧
      Text.textLines pagedBlock ≠ Text.fileLines pagedBlock ∧
      Outline.ofLines (Text.textLines pagedBlock) = loaded.outline := by
  constructor
  · obtain ⟨loaded, after, loading, outline, feeds, -⟩ :=
      @outline_textLines { path := onlyPath } (machineWith (markedBytes false dividedComment)) false
        dividedComment (.inr (by decide)) rfl
    refine ⟨loaded, after, loading, ?_, ?_⟩
    · rw [outline]
      decide +kernel
    · rw [feeds]
      decide +kernel
  · obtain ⟨loaded, after, loading, -, -, same⟩ :=
      @outline_textLines { path := onlyPath } (machineWith (markedBytes true pagedBlock)) true
        pagedBlock (.inl rfl) rfl
    exact ⟨loaded, after, loading, by decide, same (by decide +kernel)⟩

end EnumBlocks
