import EnumBlocks.Proofs.OneLine
import EnumBlocks.TextFile

/-!
The lines of a file with the breaks that end them. A text is the same as its ended lines, but its
lines alone say nothing of their breaks: written back, all of them get the same.
-/

namespace EnumBlocks

inductive IsBreak : Text → Prop where
  | lineFeed : IsBreak ['\n']
  | carriageReturn : IsBreak ['\r']
  | both : IsBreak ['\r', '\n']

theorem IsBreak.ne_nil {ending : Text} (isBreak : IsBreak ending) : ending ≠ [] := by
  cases isBreak <;> exact List.cons_ne_nil _ _

/-- A line with the break that ends it. Where the text ends without one, it is empty. -/
structure EndedLine where
  text : Text
  ending : Text
  deriving DecidableEq, Repr

def EndedLine.rebreak (newline : Text) (line : EndedLine) : EndedLine :=
  ⟨line.text, if line.ending = [] then [] else newline⟩

def printLines (lines : List EndedLine) : Text :=
  lines.flatMap fun line => line.text ++ line.ending

@[simp]
theorem printLines_nil : printLines [] = [] := rfl

@[simp]
theorem printLines_cons (line : EndedLine) (rest : List EndedLine) :
    printLines (line :: rest) = line.text ++ line.ending ++ printLines rest := rfl

theorem printLines_append (first second : List EndedLine) :
    printLines (first ++ second) = printLines first ++ printLines second :=
  List.flatMap_append

def consLine (c : Char) : List EndedLine → List EndedLine
  | [] => [⟨[c], []⟩]
  | line :: others => ⟨c :: line.text, line.ending⟩ :: others

def endedLines : Text → List EndedLine
  | [] => []
  | '\r' :: '\n' :: rest => ⟨[], ['\r', '\n']⟩ :: endedLines rest
  | c :: rest =>
      if Text.isLineBreak c then ⟨[], [c]⟩ :: endedLines rest else consLine c (endedLines rest)

/-- Whether lines can be told apart in a file: all are ended but the last, which may stand without a
break unless it is empty, and no break is half of another. -/
inductive WellEnded : List EndedLine → Prop where
  | nil : WellEnded []
  | last {text : Text} (oneLine : IsOneLine text) (nonempty : text ≠ []) :
      WellEnded [⟨text, []⟩]
  | cons {text ending : Text} {rest : List EndedLine} (oneLine : IsOneLine text)
      (isBreak : IsBreak ending)
      (whole : ending = ['\r'] → (printLines rest).head? ≠ some '\n') (others : WellEnded rest) :
      WellEnded (⟨text, ending⟩ :: rest)

theorem isLineBreak_iff {c : Char} : Text.isLineBreak c = true ↔ c = '\n' ∨ c = '\r' := by
  simp [Text.isLineBreak]

theorem isOneLine_cons_iff {c : Char} {text : Text} :
    IsOneLine (c :: text) ↔ Text.isLineBreak c = false ∧ IsOneLine text := by
  simp only [IsOneLine, List.mem_cons, not_or, Text.isLineBreak]
  grind

theorem printLines_endedLines (text : Text) : printLines (endedLines text) = text := by
  fun_induction endedLines text with
  | case1 => rfl
  | case2 rest inductionHypothesis => exact congrArg ('\r' :: '\n' :: ·) inductionHypothesis
  | case3 c rest apart isBreak inductionHypothesis => exact congrArg (c :: ·) inductionHypothesis
  | case4 c rest apart notBreak inductionHypothesis =>
      cases lines : endedLines rest with
      | nil =>
          rw [lines, printLines_nil] at inductionHypothesis
          rw [← inductionHypothesis]
          rfl
      | cons line others =>
          rw [lines] at inductionHypothesis
          exact congrArg (c :: ·) inductionHypothesis

theorem map_text_endedLines (text : Text) :
    (endedLines text).map EndedLine.text = Text.fileLines text := by
  unfold Text.fileLines
  fun_induction endedLines text with
  | case1 => rfl
  | case2 rest inductionHypothesis =>
      rw [List.map_cons, inductionHypothesis, Text.linesWith]
  | case3 c rest apart isBreak inductionHypothesis =>
      rw [List.map_cons, inductionHypothesis, Text.linesWith.eq_3 _ _ _ apart, if_pos isBreak]
  | case4 c rest apart notBreak inductionHypothesis =>
      rw [Text.linesWith.eq_3 _ _ _ apart, if_neg notBreak, ← inductionHypothesis]
      cases endedLines rest <;> rfl

theorem WellEnded.consLine {c : Char} (notBreak : Text.isLineBreak c = false)
    {lines : List EndedLine} (wellEnded : WellEnded lines) : WellEnded (consLine c lines) := by
  cases wellEnded with
  | nil => exact .last (isOneLine_cons_iff.mpr ⟨notBreak, by decide⟩) (List.cons_ne_nil c _)
  | last oneLine nonempty =>
      exact .last (isOneLine_cons_iff.mpr ⟨notBreak, oneLine⟩) (List.cons_ne_nil c _)
  | cons oneLine isBreak whole others =>
      exact .cons (isOneLine_cons_iff.mpr ⟨notBreak, oneLine⟩) isBreak whole others

theorem wellEnded_endedLines (text : Text) : WellEnded (endedLines text) := by
  fun_induction endedLines text with
  | case1 => exact .nil
  | case2 rest inductionHypothesis =>
      exact .cons (by decide) .both (by simp) inductionHypothesis
  | case3 c rest apart isBreak inductionHypothesis =>
      rcases isLineBreak_iff.mp isBreak with rfl | rfl
      · exact .cons (by decide) .lineFeed (by simp) inductionHypothesis
      · refine .cons (by decide) .carriageReturn ?_ inductionHypothesis
        -- A line feed after the carriage return would have been read with it.
        rw [printLines_endedLines]
        intro _ half
        obtain ⟨others, rfl⟩ := List.head?_eq_some_iff.mp half
        exact apart others rfl rfl
  | case4 c rest apart notBreak inductionHypothesis =>
      exact inductionHypothesis.consLine (Bool.eq_false_iff.mpr notBreak)

theorem endedLines_cons {c : Char} (notBreak : Text.isLineBreak c = false) (rest : Text) :
    endedLines (c :: rest) = consLine c (endedLines rest) := by
  have apart : ∀ others, c = '\r' → rest = '\n' :: others → False := by
    rintro others rfl
    contradiction
  rw [endedLines.eq_3 c rest apart, if_neg (by simp [notBreak])]

theorem endedLines_break {ending rest : Text} (isBreak : IsBreak ending)
    (whole : ending = ['\r'] → rest.head? ≠ some '\n') :
    endedLines (ending ++ rest) = ⟨[], ending⟩ :: endedLines rest := by
  cases isBreak with
  | lineFeed => rfl
  | carriageReturn =>
      have apart : ∀ others, '\r' = '\r' → rest = '\n' :: others → False := by
        rintro others - rfl
        exact whole rfl rfl
      exact endedLines.eq_3 '\r' rest apart
  | both => rfl

theorem endedLines_of_isOneLine {text : Text} (oneLine : IsOneLine text) (nonempty : text ≠ []) :
    endedLines text = [⟨text, []⟩] := by
  induction text with
  | nil => contradiction
  | cons c rest inductionHypothesis =>
      rw [isOneLine_cons_iff] at oneLine
      rw [endedLines_cons oneLine.1]
      cases rest with
      | nil => rfl
      | cons next others => rw [inductionHypothesis oneLine.2 (List.cons_ne_nil next others)]; rfl

theorem endedLines_append {text rest : Text} (oneLine : IsOneLine text) {line : EndedLine}
    {others : List EndedLine} (lines : endedLines rest = line :: others) :
    endedLines (text ++ rest) = ⟨text ++ line.text, line.ending⟩ :: others := by
  induction text with
  | nil => exact lines
  | cons c front inductionHypothesis =>
      rw [isOneLine_cons_iff] at oneLine
      rw [List.cons_append, endedLines_cons oneLine.1, inductionHypothesis oneLine.2]
      rfl

/-- Lines that can be told apart are the lines of the file that they stand in. -/
theorem WellEnded.endedLines_printLines {lines : List EndedLine} (wellEnded : WellEnded lines) :
    endedLines (printLines lines) = lines := by
  induction wellEnded with
  | nil => rfl
  | @last text oneLine nonempty =>
      simp only [printLines_cons, printLines_nil, List.append_nil]
      exact endedLines_of_isOneLine oneLine nonempty
  | @cons text ending rest oneLine isBreak whole others inductionHypothesis =>
      have ended := endedLines_break isBreak whole
      rw [inductionHypothesis] at ended
      rw [printLines_cons, List.append_assoc, endedLines_append oneLine ended, List.append_nil]

/-- The lines ended by one break, the last only if it is to be ended like the others. -/
def endWith (newline : Text) (trailing : Bool) : List Text → List EndedLine
  | [] => []
  | [line] => [⟨line, if trailing then newline else []⟩]
  | line :: next :: rest => ⟨line, newline⟩ :: endWith newline trailing (next :: rest)

theorem printLines_endWith (newline : Text) (trailing : Bool) (lines : List Text) :
    printLines (endWith newline trailing lines) =
      Text.joinWith newline lines ++ if trailing && !lines.isEmpty then newline else [] := by
  induction lines with
  | nil => simp [endWith]
  | cons line rest inductionHypothesis =>
      cases rest with
      | nil => cases trailing <;> simp [endWith]
      | cons next others =>
          rw [Text.joinWith_cons_cons, endWith, printLines_cons, inductionHypothesis]
          simp [List.append_assoc]

theorem toText_eq (file : TextFile) :
    file.toText = printLines (endWith file.newline file.trailingNewline file.lines) :=
  (printLines_endWith _ _ _).symm

theorem endWith_append (newline : Text) (trailing : Bool) (before : List Text) {after : List Text}
    (more : after ≠ []) :
    endWith newline trailing (before ++ after) =
      before.map (EndedLine.mk · newline) ++ endWith newline trailing after := by
  induction before with
  | nil => rfl
  | cons line rest inductionHypothesis =>
      cases follows : rest ++ after with
      | nil => simp [more] at follows
      | cons next others =>
          rw [List.cons_append, follows, endWith, ← follows, inductionHypothesis]
          rfl

def lastEnded (lines : List EndedLine) : Bool :=
  lines.getLast?.all fun line => decide (line.ending ≠ [])

theorem lastEnded_cons_cons (line next : EndedLine) (rest : List EndedLine) :
    lastEnded (line :: next :: rest) = lastEnded (next :: rest) := by
  rw [lastEnded, List.getLast?_cons_cons]
  rfl

theorem WellEnded.endWith_map_text {lines : List EndedLine} (wellEnded : WellEnded lines)
    (newline : Text) :
    endWith newline (lastEnded lines) (lines.map EndedLine.text) =
      lines.map (EndedLine.rebreak newline) := by
  induction wellEnded with
  | nil => rfl
  | last oneLine nonempty => rfl
  | @cons text ending rest oneLine isBreak whole others inductionHypothesis =>
      cases rest with
      | nil => simp [endWith, lastEnded, EndedLine.rebreak, isBreak.ne_nil]
      | cons next rest =>
          have ended : EndedLine.rebreak newline ⟨text, ending⟩ = ⟨text, newline⟩ := by
            rw [EndedLine.rebreak, if_neg isBreak.ne_nil]
          have shape : (⟨text, ending⟩ :: next :: rest).map (EndedLine.rebreak newline) =
              ⟨text, newline⟩ :: (next :: rest).map (EndedLine.rebreak newline) :=
            congrArg (· :: _) ended
          rw [shape, ← inductionHypothesis, lastEnded_cons_cons]
          rfl

theorem endsWithBreak_append {text : Text} (front : Text) (nonempty : text ≠ []) :
    Text.endsWithBreak (front ++ text) = Text.endsWithBreak text := by
  rw [Text.endsWithBreak, List.getLast?_append_of_ne_nil front nonempty, Text.endsWithBreak]

theorem IsBreak.endsWithBreak {ending : Text} (isBreak : IsBreak ending) :
    Text.endsWithBreak ending = true := by
  cases isBreak <;> rfl

theorem endsWithBreak_of_isOneLine {text : Text} (oneLine : IsOneLine text) :
    Text.endsWithBreak text = false := by
  unfold Text.endsWithBreak
  cases last : text.getLast? with
  | none => rfl
  | some c =>
      have membership : c ∈ text := List.mem_of_getLast? last
      rw [Option.any_some, Bool.eq_false_iff, Ne, isLineBreak_iff, not_or]
      constructor
      · rintro rfl
        exact oneLine.1 membership
      · rintro rfl
        exact oneLine.2 membership

theorem WellEnded.printLines_ne_nil {lines : List EndedLine} (wellEnded : WellEnded lines)
    (nonempty : lines ≠ []) : printLines lines ≠ [] := by
  cases wellEnded with
  | nil => contradiction
  | last oneLine textNonempty => simpa using textNonempty
  | cons oneLine isBreak whole others => simp [isBreak.ne_nil]

theorem WellEnded.lastEnded_eq {lines : List EndedLine} (wellEnded : WellEnded lines) :
    lastEnded lines = (Text.endsWithBreak (printLines lines) || (printLines lines).isEmpty) := by
  induction wellEnded with
  | nil => rfl
  | @last text oneLine nonempty =>
      simp [endsWithBreak_of_isOneLine oneLine, nonempty, lastEnded]
  | @cons text ending rest oneLine isBreak whole others inductionHypothesis =>
      cases rest with
      | nil =>
          rw [printLines_cons, printLines_nil, List.append_nil,
            endsWithBreak_append text isBreak.ne_nil, isBreak.endsWithBreak]
          simp [lastEnded, isBreak.ne_nil]
      | cons next rest =>
          have more := others.printLines_ne_nil (List.cons_ne_nil next rest)
          rw [lastEnded_cons_cons, inductionHypothesis, printLines_cons ⟨text, ending⟩,
            endsWithBreak_append _ more, List.isEmpty_eq_false_iff.mpr more,
            List.isEmpty_eq_false_iff.mpr (List.append_ne_nil_of_right_ne_nil _ more)]

/-- A text with one and the same break in the place of every other. -/
def rebreak (newline text : Text) : Text :=
  printLines ((endedLines text).map (EndedLine.rebreak newline))

theorem trailingNewline_ofText (text : Text) (marked : Bool) :
    (TextFile.ofText text marked).trailingNewline = lastEnded (endedLines text) := by
  have ended := (wellEnded_endedLines text).lastEnded_eq
  rw [printLines_endedLines] at ended
  exact ended.symm

theorem endWith_ofText (newline text : Text) (marked : Bool) :
    endWith newline (TextFile.ofText text marked).trailingNewline (Text.fileLines text) =
      (endedLines text).map (EndedLine.rebreak newline) := by
  rw [trailingNewline_ofText, ← map_text_endedLines,
    (wellEnded_endedLines text).endWith_map_text newline]

/-- Reading a text and writing it back changes nothing but its breaks. -/
theorem toText_ofText (text : Text) (marked : Bool) :
    (TextFile.ofText text marked).toText = rebreak (Text.detectBreak text) text := by
  rw [toText_eq]
  exact congrArg printLines (endWith_ofText _ text marked)

def breaksOf (text : Text) : List Text :=
  ((endedLines text).map EndedLine.ending).filter (· ≠ [])

theorem rebreak_eq_self {newline text : Text} (same : ∀ ending ∈ breaksOf text, ending = newline) :
    rebreak newline text = text := by
  have unchanged : ∀ line ∈ endedLines text, line.rebreak newline = line := by
    intro line membership
    unfold EndedLine.rebreak
    split
    · rename_i open_
      rw [← open_]
    · rename_i ended
      have found : line.ending ∈ breaksOf text :=
        List.mem_filter.mpr ⟨List.mem_map_of_mem membership, by simpa using ended⟩
      rw [← same line.ending found]
  rw [rebreak, List.map_congr_left unchanged, List.map_id', printLines_endedLines]

theorem WellEnded.isOneLine {lines : List EndedLine} (wellEnded : WellEnded lines) :
    ∀ line ∈ lines, IsOneLine line.text := by
  induction wellEnded with
  | nil => simp
  | last oneLine nonempty => simpa using oneLine
  | cons oneLine isBreak whole others inductionHypothesis =>
      exact List.forall_mem_cons.mpr ⟨oneLine, inductionHypothesis⟩

theorem isOneLine_of_mem_fileLines {text line : Text} (membership : line ∈ Text.fileLines text) :
    IsOneLine line := by
  rw [← map_text_endedLines] at membership
  obtain ⟨ended, present, rfl⟩ := List.mem_map.mp membership
  exact (wellEnded_endedLines text).isOneLine ended present

theorem isBreak_detectBreak (text : Text) : IsBreak (Text.detectBreak text) := by
  unfold Text.detectBreak
  split
  · split
    · exact .both
    · exact .lineFeed
  · split
    · exact .carriageReturn
    · exact .lineFeed

theorem WellEnded.isBreak {lines : List EndedLine} (wellEnded : WellEnded lines) :
    ∀ line ∈ lines, line.ending = [] ∨ IsBreak line.ending := by
  induction wellEnded with
  | nil => simp
  | last oneLine nonempty => simp
  | cons oneLine isBreak whole others inductionHypothesis =>
      exact List.forall_mem_cons.mpr ⟨.inr isBreak, inductionHypothesis⟩

theorem mem_printLines_iff {lines : List EndedLine} {c : Char} :
    c ∈ printLines lines ↔ ∃ line ∈ lines, c ∈ line.text ∨ c ∈ line.ending := by
  simp [printLines]

theorem getLast?_beforeFirst_lineFeed {text : Text} (oneLine : IsOneLine text) (rest : Text) :
    (Text.beforeFirst '\n' (text ++ (['\r', '\n'] ++ rest))).getLast? = some '\r' := by
  have clear : ∀ c ∈ text, (decide (c ≠ '\n')) = true := by
    intro c membership
    rw [decide_eq_true_iff]
    rintro rfl
    exact oneLine.1 membership
  have front : Text.beforeFirst '\n' (text ++ (['\r', '\n'] ++ rest)) = text ++ ['\r'] := by
    rw [Text.beforeFirst, List.takeWhile_append_of_pos clear]
    rfl
  rw [front, List.getLast?_concat]

section Uniform

variable {newline : Text} (isBreak : IsBreak newline) {lines : List EndedLine}
  (uniform : ∀ line ∈ lines, line.ending = [] ∨ line.ending = newline)

include uniform in
theorem WellEnded.mem_of_mem_printLines (wellEnded : WellEnded lines) {c : Char}
    (lineBreak : Text.isLineBreak c = true) (membership : c ∈ printLines lines) : c ∈ newline := by
  obtain ⟨line, present, inText | inEnding⟩ := mem_printLines_iff.mp membership
  · have oneLine := wellEnded.isOneLine line present
    rcases isLineBreak_iff.mp lineBreak with rfl | rfl
    · exact absurd inText oneLine.1
    · exact absurd inText oneLine.2
  · rcases uniform line present with none | same
    · rw [none] at inEnding
      contradiction
    · exact same ▸ inEnding

include isBreak uniform in
theorem WellEnded.detectBreak_eq (wellEnded : WellEnded lines)
    (ended : ∃ line ∈ lines, line.ending = newline) :
    Text.detectBreak (printLines lines) = newline := by
  have only := @WellEnded.mem_of_mem_printLines newline lines uniform wellEnded
  obtain ⟨line, present, same⟩ := ended
  have inside : newline ⊆ printLines lines := fun c membership =>
    mem_printLines_iff.mpr ⟨line, present, .inr (same ▸ membership)⟩
  unfold Text.detectBreak
  cases isBreak with
  | lineFeed =>
      have noReturn : '\r' ∉ printLines lines := fun membership =>
        absurd (only rfl membership) (by decide)
      rw [if_pos (inside List.mem_cons_self), if_neg]
      intro last
      exact noReturn (List.takeWhile_subset _ (List.mem_of_getLast? last))
  | carriageReturn =>
      have noFeed : '\n' ∉ printLines lines := fun membership =>
        absurd (only rfl membership) (by decide)
      rw [if_neg noFeed, if_pos (inside List.mem_cons_self)]
  | both =>
      rw [if_pos (inside (by simp)), if_pos]
      cases wellEnded with
      | nil => contradiction
      | last oneLine nonempty =>
          rw [List.mem_singleton.mp present] at same
          contradiction
      | @cons text ending rest oneLine isBreak whole others =>
          obtain rfl := (uniform ⟨text, ending⟩ List.mem_cons_self).resolve_left isBreak.ne_nil
          rw [printLines_cons, List.append_assoc]
          exact getLast?_beforeFirst_lineFeed oneLine _

end Uniform

theorem rebreak_detectBreak {text newline : Text}
    (same : ∀ ending ∈ breaksOf text, ending = newline) :
    rebreak (Text.detectBreak text) text = text := by
  have wellEnded := wellEnded_endedLines text
  apply rebreak_eq_self
  intro ending membership
  have uniform : ∀ line ∈ endedLines text, line.ending = [] ∨ line.ending = newline := by
    intro line present
    by_cases none : line.ending = []
    · exact .inl none
    · refine .inr (same _ (List.mem_filter.mpr ⟨List.mem_map_of_mem present, ?_⟩))
      simpa using none
  obtain ⟨present, nonempty⟩ := List.mem_filter.mp membership
  obtain ⟨line, lineMembership, rfl⟩ := List.mem_map.mp present
  have isBreak := (wellEnded.isBreak line lineMembership).resolve_left (by simpa using nonempty)
  have known := same _ membership
  rw [known] at isBreak
  have detected := wellEnded.detectBreak_eq isBreak uniform ⟨line, lineMembership, known⟩
  rw [printLines_endedLines] at detected
  rw [known, detected]

section Written

variable (newline : Text) (trailing : Bool)

theorem map_text_endWith (lines : List Text) :
    (endWith newline trailing lines).map EndedLine.text = lines := by
  fun_induction endWith newline trailing lines with
  | case1 => rfl
  | case2 line => rfl
  | case3 line next rest inductionHypothesis =>
      rw [List.map_cons, inductionHypothesis]

theorem ending_endWith (lines : List Text) :
    ∀ line ∈ endWith newline trailing lines, line.ending = [] ∨ line.ending = newline := by
  fun_induction endWith newline trailing lines with
  | case1 => simp
  | case2 line => cases trailing <;> simp
  | case3 line next rest inductionHypothesis =>
      exact List.forall_mem_cons.mpr ⟨.inr rfl, inductionHypothesis⟩

variable {newline} {lines : List Text}

theorem lastEnded_endWith (isBreak : IsBreak newline) (nonempty : lines ≠ []) :
    lastEnded (endWith newline trailing lines) = trailing := by
  fun_induction endWith newline trailing lines with
  | case1 => contradiction
  | case2 line => cases trailing <;> simp [lastEnded, isBreak.ne_nil]
  | case3 line next rest inductionHypothesis =>
      have texts := map_text_endWith newline trailing (next :: rest)
      cases ended : endWith newline trailing (next :: rest) with
      | nil =>
          rw [ended] at texts
          contradiction
      | cons first others =>
          rw [lastEnded_cons_cons, ← ended]
          exact inductionHypothesis (List.cons_ne_nil next rest)

theorem text_mem_of_mem_endWith {line : EndedLine}
    (membership : line ∈ endWith newline trailing lines) : line.text ∈ lines := by
  rw [← map_text_endWith newline trailing lines]
  exact List.mem_map_of_mem membership

theorem wellEnded_endWith (isBreak : IsBreak newline) (oneLine : ∀ line ∈ lines, IsOneLine line)
    (last : trailing = true ∨ lines.getLast? ≠ some []) :
    WellEnded (endWith newline trailing lines) := by
  fun_induction endWith newline trailing lines with
  | case1 => exact .nil
  | case2 line =>
      have lineOneLine := oneLine line List.mem_cons_self
      cases trailing with
      | true => exact .cons lineOneLine isBreak (by simp) .nil
      | false => exact .last lineOneLine (by simpa using last)
  | case3 line next rest inductionHypothesis =>
      rw [List.forall_mem_cons] at oneLine
      refine .cons oneLine.1 isBreak ?_ (inductionHypothesis oneLine.2 last)
      -- Where all breaks are carriage returns there is no line feed that one could be taken with.
      rintro rfl half
      obtain ⟨ended, present, inText | inEnding⟩ :=
        mem_printLines_iff.mp (List.mem_of_head? half)
      · exact (oneLine.2 _ (text_mem_of_mem_endWith trailing present)).1 inText
      · rcases ending_endWith _ _ _ ended present with none | same
        · rw [none] at inEnding
          contradiction
        · rw [same] at inEnding
          contradiction

end Written

theorem ofText_toText {file : TextFile} (isBreak : IsBreak file.newline)
    (oneLine : ∀ line ∈ file.lines, IsOneLine line) (several : 2 ≤ file.lines.length)
    (last : file.trailingNewline = true ∨ file.lines.getLast? ≠ some []) :
    TextFile.ofText file.toText file.marked = file := by
  rcases file with ⟨lines, newline, marked, trailing⟩
  rw [toText_eq]
  simp only at *
  have wellEnded := wellEnded_endWith trailing isBreak oneLine last
  have nonempty : lines ≠ [] := by
    rintro rfl
    contradiction
  have detected : Text.detectBreak (printLines (endWith newline trailing lines)) = newline := by
    apply wellEnded.detectBreak_eq isBreak (ending_endWith newline trailing lines)
    -- Of several lines the first is ended, so there is a break to be found.
    cases lines with
    | nil => contradiction
    | cons line rest =>
        cases rest with
        | nil => simp at several
        | cons next others => exact ⟨_, List.mem_cons_self, rfl⟩
  rw [TextFile.ofText, detected, ← wellEnded.lastEnded_eq, lastEnded_endWith trailing isBreak nonempty,
    ← map_text_endedLines, wellEnded.endedLines_printLines, map_text_endWith]

end EnumBlocks
