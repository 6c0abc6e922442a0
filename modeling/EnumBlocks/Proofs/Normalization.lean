import EnumBlocks.Proofs.FileBytes

/-!
What is left of a file that is read and written back. All its lines get the break that the file was
found to use, so that what is written is read as what it was written from, and is the file itself
exactly where no line had another break. What is written from other lines is read as it was written,
too, if its lines can be told apart and its text does not begin with the character of the mark unless
the mark is in front of it.
-/

namespace EnumBlocks

section Rebreak

variable {newline : Text} (isBreak : IsBreak newline)

theorem map_text_map_rebreak (lines : List EndedLine) :
    (lines.map (EndedLine.rebreak newline)).map EndedLine.text = lines.map EndedLine.text := by
  rw [List.map_map]
  rfl

include isBreak in
theorem EndedLine.ending_rebreak_eq_nil_iff (line : EndedLine) :
    (line.rebreak newline).ending = [] ↔ line.ending = [] := by
  unfold EndedLine.rebreak
  split
  · rename_i unended
    simp [unended]
  · rename_i ended
    simp [ended, isBreak.ne_nil]

include isBreak in
theorem lastEnded_map_rebreak (lines : List EndedLine) :
    lastEnded (lines.map (EndedLine.rebreak newline)) = lastEnded lines := by
  unfold lastEnded
  rw [List.getLast?_map]
  cases lines.getLast? with
  | none => rfl
  | some line => simp [EndedLine.ending_rebreak_eq_nil_iff isBreak line]

theorem WellEnded.lastEnded_or {lines : List EndedLine} (wellEnded : WellEnded lines) :
    lastEnded lines = true ∨ (lines.map EndedLine.text).getLast? ≠ some [] := by
  induction wellEnded with
  | nil => exact .inl rfl
  | last oneLine nonempty => exact .inr (by simpa using nonempty)
  | @cons text ending rest oneLine isBreak whole others inductionHypothesis =>
      cases rest with
      | nil => exact .inl (by simp [lastEnded, isBreak.ne_nil])
      | cons next rest =>
          rw [lastEnded_cons_cons, List.map_cons, List.map_cons, List.getLast?_cons_cons]
          exact inductionHypothesis

include isBreak in
theorem WellEnded.map_rebreak {lines : List EndedLine} (wellEnded : WellEnded lines) :
    WellEnded (lines.map (EndedLine.rebreak newline)) := by
  rw [← wellEnded.endWith_map_text newline]
  refine wellEnded_endWith _ isBreak ?_ wellEnded.lastEnded_or
  intro line membership
  obtain ⟨ended, present, rfl⟩ := List.mem_map.mp membership
  exact wellEnded.isOneLine ended present

include isBreak in
theorem endedLines_rebreak (text : Text) :
    endedLines (rebreak newline text) = (endedLines text).map (EndedLine.rebreak newline) :=
  ((wellEnded_endedLines text).map_rebreak isBreak).endedLines_printLines

include isBreak in
theorem fileLines_rebreak (text : Text) :
    Text.fileLines (rebreak newline text) = Text.fileLines text := by
  rw [← map_text_endedLines, endedLines_rebreak isBreak, map_text_map_rebreak, map_text_endedLines]

include isBreak in
theorem eq_of_mem_breaksOf_rebreak {text ending : Text}
    (membership : ending ∈ breaksOf (rebreak newline text)) : ending = newline := by
  obtain ⟨present, nonempty⟩ := List.mem_filter.mp membership
  rw [endedLines_rebreak isBreak, List.map_map] at present
  obtain ⟨line, -, rfl⟩ := List.mem_map.mp present
  simp only [Function.comp_apply, EndedLine.rebreak] at nonempty ⊢
  split at nonempty
  · contradiction
  · rename_i ended
    rw [if_neg ended]

include isBreak in
theorem head?_rebreak_ne_mark {text : Text} (apart : text.head? ≠ some markCharacter) :
    (rebreak newline text).head? ≠ some markCharacter := by
  have wellEnded := wellEnded_endedLines text
  rw [← printLines_endedLines text, wellEnded.head?_printLines_ne_mark_iff] at apart
  rw [rebreak, (wellEnded.map_rebreak isBreak).head?_printLines_ne_mark_iff, map_text_map_rebreak]
  exact apart

end Rebreak

theorem exists_mem_breaksOf {text : Text} (broken : breaksOf text ≠ []) :
    ∃ line ∈ endedLines text, line.ending ≠ [] := by
  obtain ⟨ending, membership⟩ := List.exists_mem_of_ne_nil _ broken
  obtain ⟨present, nonempty⟩ := List.mem_filter.mp membership
  obtain ⟨line, lineMembership, rfl⟩ := List.mem_map.mp present
  exact ⟨line, lineMembership, by simpa using nonempty⟩

/-- A text that got one break in the place of every other is found to use it. -/
theorem detectBreak_rebreak (text : Text) :
    Text.detectBreak (rebreak (Text.detectBreak text) text) = Text.detectBreak text := by
  have isBreak := isBreak_detectBreak text
  by_cases unbroken : breaksOf text = []
  · rw [rebreak_eq_self (by simp [unbroken])]
  · obtain ⟨line, membership, ended⟩ := exists_mem_breaksOf unbroken
    refine ((wellEnded_endedLines text).map_rebreak isBreak).detectBreak_eq isBreak ?_
      ⟨_, List.mem_map_of_mem membership, if_neg ended⟩
    intro rebroken present
    obtain ⟨other, -, rfl⟩ := List.mem_map.mp present
    unfold EndedLine.rebreak
    split
    · exact .inl rfl
    · exact .inr rfl

/-- A text is written back as it is exactly if all its breaks are the same. -/
theorem rebreak_detectBreak_eq_self_iff {text : Text} :
    rebreak (Text.detectBreak text) text = text ↔
      ∃ newline, ∀ ending ∈ breaksOf text, ending = newline := by
  constructor
  · intro kept
    refine ⟨Text.detectBreak text, fun ending membership => ?_⟩
    rw [← kept] at membership
    exact eq_of_mem_breaksOf_rebreak (isBreak_detectBreak text) membership
  · rintro ⟨newline, same⟩
    exact rebreak_detectBreak same

theorem breaksOf_cons {c : Char} (notBreak : Text.isLineBreak c = false) (text : Text) :
    breaksOf (c :: text) = breaksOf text := by
  unfold breaksOf
  rw [endedLines_cons notBreak]
  cases endedLines text <;> rfl

namespace TextFile

theorem ofText_toText_ofText (text : Text) (marked : Bool) :
    ofText (ofText text marked).toText marked = ofText text marked := by
  have isBreak := isBreak_detectBreak text
  have trailing : (ofText (rebreak (Text.detectBreak text) text) marked).trailingNewline =
      (ofText text marked).trailingNewline := by
    rw [trailingNewline_ofText, trailingNewline_ofText, endedLines_rebreak isBreak,
      lastEnded_map_rebreak isBreak]
  unfold ofText at trailing
  rw [toText_ofText, ofText, ofText, fileLines_rebreak isBreak, detectBreak_rebreak]
  exact congrArg _ trailing

variable {marked : Bool} {text : Text}

theorem toBytes_ofText :
    (ofText text marked).toBytes = markedBytes marked (rebreak (Text.detectBreak text) text) := by
  rw [toBytes_eq, toText_ofText]
  rfl

theorem ofBytes_toBytes_ofText (apart : marked = true ∨ text.head? ≠ some markCharacter) :
    ofBytes (ofText text marked).toBytes = .ok (ofText text marked) := by
  have rebrokenApart := apart.imp_right (head?_rebreak_ne_mark (isBreak_detectBreak text))
  rw [toBytes_ofText, ofBytes_markedBytes rebrokenApart, ← toText_ofText, ofText_toText_ofText]

theorem toBytes_ofText_eq_iff :
    (ofText text marked).toBytes = markedBytes marked text ↔
      ∃ newline, ∀ ending ∈ breaksOf text, ending = newline := by
  rw [toBytes_ofText, markedBytes_inj, rebreak_detectBreak_eq_self_iff]

end TextFile

theorem exists_markedBytes_of_decode {bytes : Bytes} {content : Text}
    (decoded : Utf8.decode bytes = .ok content) :
    ∃ marked text, bytes = markedBytes marked text ∧ breaksOf content = breaksOf text ∧
      (marked = true ∨ text.head? ≠ some markCharacter) := by
  have encoded := Utf8.encode_of_decode decoded
  by_cases first : content.head? = some markCharacter
  · obtain ⟨text, rfl⟩ := List.head?_eq_some_iff.mp first
    exact ⟨true, text, by rw [← encoded, Utf8.encode_markCharacter]; rfl,
      breaksOf_cons (by decide) text, .inl rfl⟩
  · exact ⟨false, content, encoded.symm, rfl, .inr first⟩

/-- Reading a file and writing it back brings it into a normal form: what is written is read as the
file was, with the same lines and the same format, and it is the file itself exactly if all breaks
between the lines of the file are the same. -/
theorem ofBytes_toBytes_of_decode {bytes : Bytes} {content : Text}
    (decoded : Utf8.decode bytes = .ok content) :
    ∃ file, TextFile.ofBytes bytes = .ok file ∧
      TextFile.ofBytes file.toBytes = .ok file ∧
      (file.toBytes = bytes ↔ ∃ newline, ∀ ending ∈ breaksOf content, ending = newline) := by
  obtain ⟨marked, text, rfl, breaks, apart⟩ := exists_markedBytes_of_decode decoded
  refine ⟨TextFile.ofText text marked, TextFile.ofBytes_markedBytes apart,
    TextFile.ofBytes_toBytes_ofText apart, ?_⟩
  rw [breaks]
  exact TextFile.toBytes_ofText_eq_iff

/-- A file with the mark twice, an empty line, and a break of each kind. -/
def doublyMarkedFile : Bytes :=
  Utf8.mark ++ Utf8.mark ++ [0x61, 0x0d, 0x0a, 0x0a, 0x62, 0x0d, 0x63]

theorem ofBytes_toBytes_of_decode_doublyMarkedFile :
    ∃ file, TextFile.ofBytes doublyMarkedFile = .ok file ∧
      file.lines = [[markCharacter, 'a'], [], ['b'], ['c']] ∧
      TextFile.ofBytes file.toBytes = .ok file ∧ file.toBytes ≠ doublyMarkedFile := by
  have decoded : Utf8.decode doublyMarkedFile =
      .ok [markCharacter, markCharacter, 'a', '\r', '\n', '\n', 'b', '\r', 'c'] := rfl
  obtain ⟨file, read, reread, same⟩ := ofBytes_toBytes_of_decode decoded
  have lines : (TextFile.ofBytes doublyMarkedFile).map TextFile.lines =
      .ok [[markCharacter, 'a'], [], ['b'], ['c']] := by
    decide +kernel
  rw [read] at lines
  refine ⟨file, read, Except.ok.inj lines, reread, fun kept => ?_⟩
  obtain ⟨newline, only⟩ := same.mp kept
  have breaks : breaksOf [markCharacter, markCharacter, 'a', '\r', '\n', '\n', 'b', '\r', 'c'] =
      [['\r', '\n'], ['\n'], ['\r']] := rfl
  rw [breaks, List.forall_mem_cons, List.forall_mem_cons] at only
  exact absurd (only.1.trans only.2.1.symm) (by decide)

namespace TextFile

/-- Whether a file of several lines is read as it is written. -/
structure Separable (file : TextFile) : Prop where
  isBreak : IsBreak file.newline
  oneLine : ∀ line ∈ file.lines, IsOneLine line
  /-- A last line that is not ended has to have a text. -/
  last : file.trailingNewline = true ∨ file.lines.getLast? ≠ some []
  apart : file.marked = true ∨ ∀ line ∈ file.lines.head?, line.head? ≠ some markCharacter

theorem Separable.ofBytes_toBytes {file : TextFile} (separable : file.Separable)
    (several : 2 ≤ file.lines.length) : ofBytes file.toBytes = .ok file := by
  have wellEnded := wellEnded_endWith file.trailingNewline separable.isBreak separable.oneLine
    separable.last
  have apart : file.marked = true ∨ file.toText.head? ≠ some markCharacter := by
    rw [toText_eq, wellEnded.head?_printLines_ne_mark_iff, map_text_endWith]
    exact separable.apart
  rw [toBytes_eq, ofBytes_markedBytes apart,
    ofText_toText separable.isBreak separable.oneLine several separable.last]

theorem separable_ofText {text : Text} {marked : Bool}
    (apart : marked = true ∨ text.head? ≠ some markCharacter) :
    (ofText text marked).Separable where
  isBreak := isBreak_detectBreak text
  oneLine := fun line membership => isOneLine_of_mem_fileLines membership
  last := by
    rw [trailingNewline_ofText]
    have ended := (wellEnded_endedLines text).lastEnded_or
    rwa [map_text_endedLines] at ended
  apart := by
    have begins := (wellEnded_endedLines text).head?_printLines_ne_mark_iff
    rw [printLines_endedLines, map_text_endedLines] at begins
    exact apart.imp_right begins.mp

theorem separable_of_ofBytes {bytes : Bytes} {file : TextFile} (read : ofBytes bytes = .ok file) :
    file.Separable := by
  obtain ⟨text, shape, -, apart⟩ := ofBytes_eq_ok read
  rw [shape]
  exact separable_ofText apart

end TextFile

end EnumBlocks
