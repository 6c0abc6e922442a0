import EnumBlocks.Proofs.FileLines
import EnumBlocks.Proofs.Text.Utf8

/-!
The bytes of a text file. They are those of its text, after a byte order mark if it has one; a text
that begins with the character of the mark cannot be told from a marked one.
-/

namespace EnumBlocks

def markCharacter : Char := '\ufeff'

theorem IsBreak.head?_append_ne_mark {ending : Text} (isBreak : IsBreak ending) (rest : Text) :
    (ending ++ rest).head? ≠ some markCharacter := by
  cases isBreak <;> exact fun same => absurd (Option.some.inj same) (by decide)

theorem WellEnded.head?_printLines_ne_mark_iff {lines : List EndedLine}
    (wellEnded : WellEnded lines) :
    (printLines lines).head? ≠ some markCharacter ↔
      ∀ line ∈ (lines.map EndedLine.text).head?, line.head? ≠ some markCharacter := by
  cases wellEnded with
  | nil => simp
  | last oneLine nonempty => simp
  | @cons text ending rest oneLine isBreak whole others =>
      cases text with
      | nil =>
          have begins := isBreak.head?_append_ne_mark (printLines rest)
          simpa using begins
      | cons c tail => simp

namespace Utf8

theorem encode_markCharacter (text : Text) : encode (markCharacter :: text) = mark ++ encode text :=
  encode_cons markCharacter text

theorem head?_of_encode_eq_mark_append {text : Text} {rest : Bytes}
    (marked : encode text = mark ++ rest) : text.head? = some markCharacter := by
  have spells : Spells markCharacter mark := spells_utf8EncodeChar markCharacter
  have whole := decodeFrom_encode text 0
  rw [marked, decodeFrom_spelled spells] at whole
  obtain ⟨remaining, -, rfl⟩ := map_eq_ok whole
  rfl

end Utf8

def markedBytes (marked : Bool) (text : Text) : Bytes :=
  (if marked then Utf8.mark else []) ++ Utf8.encode text

theorem markedBytes_inj {marked : Bool} {first second : Text} :
    markedBytes marked first = markedBytes marked second ↔ first = second := by
  constructor
  · intro same
    have decoded := congrArg Utf8.decode (List.append_cancel_left same)
    rw [Utf8.decode_encode, Utf8.decode_encode] at decoded
    exact Except.ok.inj decoded
  · exact congrArg (markedBytes marked)

namespace TextFile

/-- The bytes of a text, with the mark or not beginning with its character, are read as the text. -/
theorem ofBytes_markedBytes {marked : Bool} {text : Text}
    (apart : marked = true ∨ text.head? ≠ some markCharacter) :
    ofBytes (markedBytes marked text) = .ok (ofText text marked) := by
  cases marked with
  | true =>
      have split : Utf8.mark.isPrefixOf? (markedBytes true text) = some (Utf8.encode text) :=
        List.isPrefixOf?_eq_some_iff_append_eq.mpr rfl
      rw [ofBytes, split]
      simp only [Utf8.decode_encode]
      rfl
  | false =>
      have whole : Utf8.mark.isPrefixOf? (markedBytes false text) = none := by
        cases found : Utf8.mark.isPrefixOf? (markedBytes false text) with
        | none => rfl
        | some rest =>
            have equality := List.isPrefixOf?_eq_some_iff_append_eq.mp found
            have first := Utf8.head?_of_encode_eq_mark_append equality.symm
            simp [first] at apart
      rw [ofBytes, whole]
      exact congrArg (Except.map (ofText · false)) (Utf8.decode_encode text)

theorem ofBytes_eq_ok {bytes : Bytes} {file : TextFile} (read : ofBytes bytes = .ok file) :
    ∃ text, file = ofText text file.marked ∧ bytes = markedBytes file.marked text ∧
      (file.marked = true ∨ text.head? ≠ some markCharacter) := by
  unfold ofBytes at read
  split at read
  · rename_i rest found
    obtain ⟨text, decoded, rfl⟩ := map_eq_ok read
    have equality := List.isPrefixOf?_eq_some_iff_append_eq.mp found
    refine ⟨text, rfl, ?_, .inl rfl⟩
    rw [← equality, ← Utf8.encode_of_decode decoded]
    rfl
  · rename_i none
    obtain ⟨text, decoded, rfl⟩ := map_eq_ok read
    refine ⟨text, rfl, (Utf8.encode_of_decode decoded).symm, .inr ?_⟩
    intro first
    obtain ⟨rest, rfl⟩ := List.head?_eq_some_iff.mp first
    rw [← Utf8.encode_of_decode decoded, Utf8.encode_markCharacter] at none
    have found := List.isPrefixOf?_eq_some_iff_append_eq.mpr
      (rfl : Utf8.mark ++ Utf8.encode rest = _)
    rw [found] at none
    contradiction

theorem toBytes_eq (file : TextFile) : file.toBytes = markedBytes file.marked file.toText := rfl

/-- Whatever is written can be read. -/
theorem exists_ofBytes_toBytes (file : TextFile) : ∃ read, ofBytes file.toBytes = .ok read := by
  rw [toBytes_eq]
  by_cases apart : file.marked = true ∨ file.toText.head? ≠ some markCharacter
  · exact ⟨_, ofBytes_markedBytes apart⟩
  · rw [not_or, not_not] at apart
    obtain ⟨unmarked, first⟩ := apart
    obtain ⟨rest, shape⟩ := List.head?_eq_some_iff.mp first
    -- The first character is taken for the mark.
    have taken : markedBytes file.marked file.toText = markedBytes true rest := by
      rw [Bool.not_eq_true] at unmarked
      rw [unmarked, shape]
      exact Utf8.encode_markCharacter rest
    rw [taken]
    exact ⟨_, ofBytes_markedBytes (.inl rfl)⟩

end TextFile

end EnumBlocks
