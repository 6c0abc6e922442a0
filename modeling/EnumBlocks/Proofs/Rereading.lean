import EnumBlocks.Proofs.Agreement
import EnumBlocks.Proofs.Normalization
import EnumBlocks.Proofs.Preservation

/-!
Reading a file again in which some lines were replaced. Whatever stands in their place now, be it
more lines or fewer, the lines before and after it are read as they were, and so are the blocks in
them.
-/

namespace EnumBlocks

section Lines

variable {newline : Text} (isBreak : IsBreak newline)

include isBreak in
theorem exists_endedLines_append {rest : Text}
    (whole : newline = ['\r'] → rest.head? ≠ some '\n') (front : Text) :
    ∃ line lines, endedLines (front ++ (newline ++ rest)) = line :: lines ++ endedLines rest := by
  fun_induction endedLines front with
  | case1 => exact ⟨_, [], endedLines_break isBreak whole⟩
  | case2 others inductionHypothesis =>
      obtain ⟨line, lines, same⟩ := inductionHypothesis
      refine ⟨⟨[], ['\r', '\n']⟩, line :: lines, ?_⟩
      rw [List.cons_append, List.cons_append, endedLines, same]
      rfl
  | case3 c others apart lineBreak inductionHypothesis =>
      obtain ⟨line, lines, same⟩ := inductionHypothesis
      by_cases joined : ∃ later, c = '\r' ∧ others ++ (newline ++ rest) = '\n' :: later
      · -- A carriage return at the end of the front makes one break with a line feed behind it.
        obtain ⟨later, rfl, behind⟩ := joined
        cases others with
        | nil => cases isBreak with
          | lineFeed => exact ⟨⟨[], ['\r', '\n']⟩, [], rfl⟩
          | carriageReturn => simp at behind
          | both => simp at behind
        | cons next more =>
            obtain rfl := (List.cons.inj behind).1
            exact absurd rfl (apart more rfl)
      · have alone : ∀ later, c = '\r' → others ++ (newline ++ rest) = '\n' :: later → False :=
          fun later first behind => joined ⟨later, first, behind⟩
        refine ⟨⟨[], [c]⟩, line :: lines, ?_⟩
        rw [List.cons_append, endedLines.eq_3 _ _ alone, if_pos lineBreak, same]
        rfl
  | case4 c others apart noBreak inductionHypothesis =>
      obtain ⟨line, lines, same⟩ := inductionHypothesis
      have clear : Text.isLineBreak c = false := Bool.eq_false_iff.mpr noBreak
      refine ⟨⟨c :: line.text, line.ending⟩, lines, ?_⟩
      rw [List.cons_append, endedLines_cons clear, same]
      rfl

include isBreak in
theorem fileLines_line_append {line rest : Text} (oneLine : IsOneLine line)
    (whole : newline = ['\r'] → rest.head? ≠ some '\n') :
    Text.fileLines (line ++ (newline ++ rest)) = line :: Text.fileLines rest := by
  rw [← map_text_endedLines, endedLines_append oneLine (endedLines_break isBreak whole),
    List.map_cons, map_text_endedLines, List.append_nil]

include isBreak in
theorem exists_fileLines_append {lines : List Text} (oneLine : ∀ line ∈ lines, IsOneLine line)
    (rest : Text) :
    ∃ more, Text.fileLines (printLines (lines.map (EndedLine.mk · newline)) ++ rest) =
      lines ++ more := by
  induction lines with
  | nil => exact ⟨_, rfl⟩
  | cons line others inductionHypothesis =>
      rw [List.forall_mem_cons] at oneLine
      obtain ⟨more, same⟩ := inductionHypothesis oneLine.2
      have shape : printLines ((line :: others).map (EndedLine.mk · newline)) ++ rest =
          line ++ (newline ++ (printLines (others.map (EndedLine.mk · newline)) ++ rest)) := by
        rw [List.map_cons, printLines_cons]
        simp only [List.append_assoc]
      by_cases whole : newline = ['\r'] →
          (printLines (others.map (EndedLine.mk · newline)) ++ rest).head? ≠ some '\n'
      · exact ⟨more, by rw [shape, fileLines_line_append isBreak oneLine.1 whole, same]; rfl⟩
      · -- A line feed of what follows can make one break with the last carriage return.
        rw [Classical.not_imp, not_not] at whole
        obtain ⟨rfl, half⟩ := whole
        cases others with
        | nil =>
            obtain ⟨later, rfl⟩ := List.head?_eq_some_iff.mp half
            refine ⟨Text.fileLines later, ?_⟩
            rw [shape]
            exact fileLines_line_append .both oneLine.1 (by simp)
        | cons next others =>
            cases next with
            | nil => simp at half
            | cons c tail =>
                obtain rfl : c = '\n' := by simpa using half
                exact absurd List.mem_cons_self (oneLine.2 _ List.mem_cons_self).1

end Lines

section Text

variable (text : Text) {newline : Text} (isBreak : IsBreak newline)

include isBreak in
/-- The lines after a line are read as they were, whatever stands in front of them now. -/
theorem exists_fileLines_append_textAfter (front : Text) {index : Nat}
    (inside : index < (Text.fileLines text).length) :
    ∃ lines, Text.fileLines (front ++ rebreak newline (textAfter text index)) =
      lines ++ (Text.fileLines text).drop (index + 1) := by
  have wellEnded := (wellEnded_endedLines text).drop index
  rw [← map_text_endedLines, List.length_map] at inside
  have later : (Text.fileLines text).drop (index + 1) =
      (((endedLines text).drop index).drop 1).map EndedLine.text := by
    rw [List.drop_drop, ← map_text_endedLines, List.map_drop]
  rw [later, textAfter]
  cases remaining : (endedLines text).drop index with
  | nil =>
      rw [List.drop_eq_nil_iff] at remaining
      omega
  | cons line rest =>
      rw [remaining] at wellEnded
      simp only [List.drop_succ_cons, List.drop_zero]
      cases wellEnded with
      | last oneLine nonempty => exact ⟨_, (List.append_nil _).symm⟩
      | @cons own ending rest oneLine ownBreak whole others =>
          have rebroken := others.map_rebreak isBreak
          have clear : newline = ['\r'] →
              (printLines (rest.map (EndedLine.rebreak newline))).head? ≠ some '\n' := by
            rintro rfl half
            have uniform : ∀ line ∈ rest.map (EndedLine.rebreak ['\r']),
                line.ending = [] ∨ line.ending = ['\r'] := by
              intro line membership
              obtain ⟨old, -, rfl⟩ := List.mem_map.mp membership
              unfold EndedLine.rebreak
              split <;> simp
            have found := rebroken.mem_of_mem_printLines uniform rfl (List.mem_of_head? half)
            simp at found
          obtain ⟨first, lines, same⟩ := exists_endedLines_append isBreak clear front
          refine ⟨(first :: lines).map EndedLine.text, ?_⟩
          rw [rebreak_break_append newline ownBreak others whole, ← map_text_endedLines, same,
            rebroken.endedLines_printLines, List.map_append, map_text_map_rebreak]

theorem head?_textAfter_ne_mark (index : Nat) :
    (textAfter text index).head? ≠ some markCharacter := by
  have wellEnded := (wellEnded_endedLines text).drop index
  rw [textAfter]
  cases remaining : (endedLines text).drop index with
  | nil => exact Option.some_ne_none _ |>.symm
  | cons line rest =>
      rw [remaining] at wellEnded
      cases wellEnded with
      | last oneLine nonempty => exact Option.some_ne_none _ |>.symm
      | cons oneLine isBreak whole others => exact isBreak.head?_append_ne_mark _

include isBreak in
theorem head?_rebreak_textBefore_ne_mark (unmarked : text.head? ≠ some markCharacter) {index : Nat}
    (later : 0 < index) (inside : index < (Text.fileLines text).length) (rest : Text) :
    (rebreak newline (textBefore text index) ++ rest).head? ≠ some markCharacter := by
  have before : (Text.fileLines text).take index ≠ [] := by
    intro none
    rw [List.take_eq_nil_iff] at none
    rcases none with none | none
    · omega
    · rw [none] at inside
      contradiction
  have own : (endedLines text).take index ≠ [] := by
    intro none
    rw [← map_text_endedLines, ← List.map_take, none] at before
    contradiction
  have nonempty : textBefore text index ≠ [] :=
    ((wellEnded_endedLines text).take index).printLines_ne_nil own
  obtain ⟨middle, shape⟩ := exists_text_eq text (Nat.le_refl index)
  have begins : (textBefore text index).head? ≠ some markCharacter := by
    rw [shape, List.append_assoc, List.head?_append_of_ne_nil _ nonempty] at unmarked
    exact unmarked
  have rebroken : rebreak newline (textBefore text index) ≠ [] := by
    rw [rebreak_textBefore newline text inside, printLines_map newline before]
    exact List.append_ne_nil_of_right_ne_nil _ isBreak.ne_nil
  rw [List.head?_append_of_ne_nil _ rebroken]
  exact head?_rebreak_ne_mark isBreak begins

end Text

theorem TextFile.ofBytes_mark_cons (text : Text) :
    ofBytes (markedBytes false (markCharacter :: text)) = .ok (ofText text true) := by
  have taken : markedBytes false (markCharacter :: text) = markedBytes true text :=
    Utf8.encode_markCharacter text
  rw [taken]
  exact ofBytes_markedBytes (.inl rfl)

/-- A file in which some lines were replaced is read with the lines before and after them. -/
theorem TextFile.reread_replaced {text : Text} {marked : Bool}
    (apart : marked = true ∨ text.head? ≠ some markCharacter) {first last : Nat}
    (ordered : first ≤ last) (inside : last < (Text.fileLines text).length) {lines : List Text}
    (nonempty : lines ≠ []) :
    ∃ reloaded,
      ofBytes { ofText text marked with
        lines := (Text.fileLines text).take first ++ lines ++
          (Text.fileLines text).drop (last + 1) }.toBytes = .ok reloaded ∧
      (∃ back, reloaded.lines = (Text.fileLines text).take first ++ back) ∧
      ∃ front, reloaded.lines = front ++ (Text.fileLines text).drop (last + 1) := by
  have isBreak := isBreak_detectBreak text
  rw [toBytes_eq, toText_replaced text marked ordered inside nonempty]
  generalize written : Text.joinWith (Text.detectBreak text) lines = middle
  have behind := fun front : Text =>
    exists_fileLines_append_textAfter text isBreak front inside
  by_cases clear : marked = true ∨
      (rebreak (Text.detectBreak text) (textBefore text first) ++ middle ++
        rebreak (Text.detectBreak text) (textAfter text last)).head? ≠ some markCharacter
  · refine ⟨_, ofBytes_markedBytes clear, ?_, behind _⟩
    have oneLine : ∀ line ∈ (Text.fileLines text).take first, IsOneLine line :=
      fun line membership => isOneLine_of_mem_fileLines (List.mem_of_mem_take membership)
    rw [List.append_assoc, rebreak_textBefore _ text (by omega)]
    exact exists_fileLines_append isBreak oneLine _
  · -- The mark can only have been written at the start of the lines in the place of the first.
    rw [not_or, not_not, Bool.not_eq_true] at clear
    obtain ⟨rfl, begins⟩ := clear
    have unmarked := apart.resolve_left Bool.false_ne_true
    have start : first = 0 := by
      by_contra later
      rw [List.append_assoc] at begins
      exact head?_rebreak_textBefore_ne_mark text isBreak unmarked (by omega) (by omega) _ begins
    generalize rebreak (Text.detectBreak text) (textBefore text first) ++ middle = before at begins ⊢
    cases before with
    | nil =>
        exact absurd begins (head?_rebreak_ne_mark isBreak (head?_textAfter_ne_mark text last))
    | cons c tail =>
        obtain rfl : c = markCharacter := by simpa using begins
        refine ⟨_, ofBytes_mark_cons _, ?_, behind tail⟩
        rw [start]
        exact ⟨_, rfl⟩

section Blocks

variable {name : Text} {front back : List Text}

/-- A block that is declared in later lines is what these say, whatever stands in front of them. -/
theorem find?_ofLines_of_declared_behind (front : List Text) (declared : name ∈ declaredNames back) :
    (Outline.ofLines (front ++ back)).find? name = (Outline.ofLines back).find? name := by
  obtain ⟨added, -, split⟩ := (follows_ofLines front back).declared
  rw [find?_ofLines, find?_ofLines, declaredIn, split, findRev?_append]
  cases found : (declaredIn back).findRev? (·.name == name) with
  | some block =>
      rw [declaredIn] at found
      rw [found, Option.some_or]
  | none =>
      rw [findRev?_name_eq_none_iff, names_declaredIn] at found
      exact absurd declared found

/-- A block that is declared in earlier lines only, and left there, is what these say. -/
theorem find?_ofLines_of_left (declared : name ∈ declaredNames front)
    (absent : name ∉ declaredNames back) (closed : ¬ LeavesOpen name front) :
    (Outline.ofLines (front ++ back)).find? name = (Outline.ofLines front).find? name := by
  obtain ⟨own, found⟩ := Outline.mem_names_iff.mp (mem_names_ofLines.mpr declared)
  obtain ⟨more, whole, nothing⟩ := find?_ofLines_append [] absent found
  rw [nothing closed, List.nil_append] at whole
  rw [whole, found, Block.append, List.append_nil]

theorem LeavesOpen.declared {lines : List Text} (opened : LeavesOpen name lines) :
    name ∈ declaredNames lines := by
  obtain ⟨scope, membership, rfl⟩ := opened
  obtain ⟨block, present, named⟩ := Reading.grounded_ofLines lines scope membership
  rw [← names_declaredIn, ← named]
  exact List.mem_map_of_mem (List.mem_of_getElem? present)

theorem LeavesOpen.of_append (opened : LeavesOpen name (front ++ back)) :
    LeavesOpen name front ∨ LeavesOpen name back := by
  obtain ⟨scope, membership, named⟩ := opened
  obtain ⟨outer, suffixed, scopes⟩ := (follows_ofLines front back).scopes
  rw [scopes, List.mem_append, List.mem_map] at membership
  rcases membership with ⟨inner, inside, rfl⟩ | outside
  · exact .inr ⟨inner, inside, named⟩
  · exact .inl ⟨scope, suffixed.subset outside, named⟩

end Blocks

end EnumBlocks
