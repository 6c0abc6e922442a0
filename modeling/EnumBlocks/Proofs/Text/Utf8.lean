import EnumBlocks.Text.Utf8
import Mathlib.Data.List.Forall2
import Mathlib.Tactic.Common

/-!
Bytes and the text they encode. Every text is decoded from the bytes that it is encoded as, and no
others are decoded to it.
-/

namespace EnumBlocks

theorem map_eq_ok {α β ε : Type} {result : Except ε α} {change : α → β} {value : β}
    (done : result.map change = .ok value) : ∃ old, result = .ok old ∧ change old = value := by
  cases result with
  | error cause => contradiction
  | ok old =>
      cases done
      exact ⟨old, rfl, rfl⟩

namespace Utf8

theorem contains_iff {lower upper byte : UInt8} :
    ByteRange.contains (lower, upper) byte = true ↔
      lower.toNat ≤ byte.toNat ∧ byte.toNat ≤ upper.toNat := by
  simp [ByteRange.contains, UInt8.le_iff_toNat_le]

/-- The byte after the first of three. The bounds keep out what two bytes encode, and surrogates. -/
def secondOfThree (first : UInt8) : ByteRange :=
  (if first.toNat = 0xe0 then 0xa0 else 0x80, if first.toNat = 0xed then 0x9f else 0xbf)

/-- The byte after the first of four. The bounds keep out what three bytes encode, and what is beyond
the last code point. -/
def secondOfFour (first : UInt8) : ByteRange :=
  (if first.toNat = 0xf0 then 0x90 else 0x80, if first.toNat = 0xf4 then 0x8f else 0xbf)

theorem contains_continuation_iff {byte : UInt8} :
    continuation.contains byte = true ↔ 0x80 ≤ byte.toNat ∧ byte.toNat ≤ 0xbf :=
  contains_iff

theorem contains_secondOfThree_iff {first byte : UInt8} :
    (secondOfThree first).contains byte = true ↔
      (0x80 ≤ byte.toNat ∧ byte.toNat ≤ 0xbf) ∧ (first.toNat = 0xe0 → 0xa0 ≤ byte.toNat) ∧
        (first.toNat = 0xed → byte.toNat ≤ 0x9f) := by
  rw [secondOfThree, contains_iff]
  split <;> split <;> simp only [UInt8.reduceToNat] <;> omega

theorem contains_secondOfFour_iff {first byte : UInt8} :
    (secondOfFour first).contains byte = true ↔
      (0x80 ≤ byte.toNat ∧ byte.toNat ≤ 0xbf) ∧ (first.toNat = 0xf0 → 0x90 ≤ byte.toNat) ∧
        (first.toNat = 0xf4 → byte.toNat ≤ 0x8f) := by
  rw [secondOfFour, contains_iff]
  split <;> split <;> simp only [UInt8.reduceToNat] <;> omega

/-- Whether a byte begins a character, with what it adds to the code point and which bytes follow. -/
inductive Begins (first : UInt8) : Nat → List ByteRange → Prop where
  | one (upper : first.toNat < 0x80) : Begins first first.toNat []
  | two (lower : 0xc2 ≤ first.toNat) (upper : first.toNat < 0xe0) :
      Begins first (first.toNat - 0xc0) [continuation]
  | three (lower : 0xe0 ≤ first.toNat) (upper : first.toNat < 0xf0) :
      Begins first (first.toNat - 0xe0) [secondOfThree first, continuation]
  | four (lower : 0xf0 ≤ first.toNat) (upper : first.toNat < 0xf5) :
      Begins first (first.toNat - 0xf0) [secondOfFour first, continuation, continuation]

theorem first?_eq (first : UInt8) :
    first? first =
      if first.toNat < 0x80 then some (first.toNat, [])
      else if first.toNat < 0xc2 then none
      else if first.toNat < 0xe0 then some (first.toNat - 0xc0, [continuation])
      else if first.toNat < 0xf0 then
        some (first.toNat - 0xe0, [secondOfThree first, continuation])
      else if first.toNat < 0xf5 then
        some (first.toNat - 0xf0, [secondOfFour first, continuation, continuation])
      else none := by
  have each : ∀ byte : Fin 256,
      first? (UInt8.ofNat byte) =
        if byte.val < 0x80 then some (byte.val, [])
        else if byte.val < 0xc2 then none
        else if byte.val < 0xe0 then some (byte.val - 0xc0, [continuation])
        else if byte.val < 0xf0 then
          some (byte.val - 0xe0, [secondOfThree (UInt8.ofNat byte), continuation])
        else if byte.val < 0xf5 then
          some (byte.val - 0xf0, [secondOfFour (UInt8.ofNat byte), continuation, continuation])
        else none := by
    decide +kernel
  have own := each ⟨first.toNat, first.toNat_lt⟩
  rw [UInt8.ofNat_toNat] at own
  exact own

theorem first?_eq_some_iff {first : UInt8} {value : Nat} {ranges : List ByteRange} :
    first? first = some (value, ranges) ↔ Begins first value ranges := by
  rw [first?_eq]
  constructor
  · intro read
    split at read
    · rename_i upper
      obtain ⟨rfl, rfl⟩ := Prod.mk.inj (Option.some.inj read)
      exact .one upper
    · split at read
      · contradiction
      · split at read
        · rename_i lower upper
          obtain ⟨rfl, rfl⟩ := Prod.mk.inj (Option.some.inj read)
          exact .two (Nat.not_lt.mp lower) upper
        · split at read
          · rename_i lower upper
            obtain ⟨rfl, rfl⟩ := Prod.mk.inj (Option.some.inj read)
            exact .three (Nat.not_lt.mp lower) upper
          · split at read
            · rename_i lower upper
              obtain ⟨rfl, rfl⟩ := Prod.mk.inj (Option.some.inj read)
              exact .four (Nat.not_lt.mp lower) upper
            · contradiction
  · intro begins
    cases begins with
    | one upper => rw [if_pos upper]
    | two lower upper => rw [if_neg (by omega), if_neg (by omega), if_pos upper]
    | three lower upper =>
        rw [if_neg (by omega), if_neg (by omega), if_neg (by omega), if_pos upper]
    | four lower upper =>
        rw [if_neg (by omega), if_neg (by omega), if_neg (by omega), if_neg (by omega),
          if_pos upper]

def codePoint (value : Nat) (rest : Bytes) : Nat :=
  rest.foldl (fun value byte => 64 * value + byte.toNat % 64) value

def InRanges (ranges : List ByteRange) (bytes : Bytes) : Prop :=
  List.Forall₂ (fun range byte => range.contains byte = true) ranges bytes

inductive Spells : Char → Bytes → Prop where
  | intro {first : UInt8} {value : Nat} {ranges : List ByteRange} {rest : Bytes}
      (begins : Begins first value ranges) (within : InRanges ranges rest) :
      Spells (Char.ofNat (codePoint value rest)) (first :: rest)

theorem toNat_ofNat {value : Nat} (valid : value.isValidChar) :
    (Char.ofNat value).val.toNat = value := by
  rw [Char.ofNat, dif_pos valid]
  rfl

theorem ofNat_eq {first : UInt8} {value : Nat} (same : value = first.toNat) :
    UInt8.ofNat value = first := by
  rw [same, UInt8.ofNat_toNat]

section Sequences

variable {first second third fourth : UInt8}

theorem utf8EncodeChar_two (lower : 0xc2 ≤ first.toNat) (upper : first.toNat < 0xe0)
    (secondBounds : continuation.contains second = true) :
    String.utf8EncodeChar (Char.ofNat (codePoint (first.toNat - 0xc0) [second])) =
      [first, second] := by
  rw [contains_continuation_iff] at secondBounds
  simp only [codePoint, List.foldl_cons, List.foldl_nil]
  rw [String.utf8EncodeChar, toNat_ofNat (.inl (by omega)), if_neg (by omega),
    if_pos (by omega)]
  congr
  · exact ofNat_eq (by omega)
  · exact ofNat_eq (by omega)

theorem utf8EncodeChar_three (lower : 0xe0 ≤ first.toNat) (upper : first.toNat < 0xf0)
    (secondBounds : (secondOfThree first).contains second = true)
    (thirdBounds : continuation.contains third = true) :
    String.utf8EncodeChar (Char.ofNat (codePoint (first.toNat - 0xe0) [second, third])) =
      [first, second, third] := by
  rw [contains_secondOfThree_iff] at secondBounds
  rw [contains_continuation_iff] at thirdBounds
  simp only [codePoint, List.foldl_cons, List.foldl_nil]
  rw [String.utf8EncodeChar, toNat_ofNat (by unfold Nat.isValidChar; omega), if_neg (by omega),
    if_neg (by omega), if_pos (by omega)]
  congr
  · exact ofNat_eq (by omega)
  · exact ofNat_eq (by omega)
  · exact ofNat_eq (by omega)

theorem utf8EncodeChar_four (lower : 0xf0 ≤ first.toNat) (upper : first.toNat < 0xf5)
    (secondBounds : (secondOfFour first).contains second = true)
    (thirdBounds : continuation.contains third = true)
    (fourthBounds : continuation.contains fourth = true) :
    String.utf8EncodeChar (Char.ofNat (codePoint (first.toNat - 0xf0) [second, third, fourth])) =
      [first, second, third, fourth] := by
  rw [contains_secondOfFour_iff] at secondBounds
  rw [contains_continuation_iff] at thirdBounds fourthBounds
  simp only [codePoint, List.foldl_cons, List.foldl_nil]
  rw [String.utf8EncodeChar, toNat_ofNat (.inr (by omega)), if_neg (by omega),
    if_neg (by omega), if_neg (by omega)]
  congr
  · exact ofNat_eq (by omega)
  · exact ofNat_eq (by omega)
  · exact ofNat_eq (by omega)
  · exact ofNat_eq (by omega)

end Sequences

theorem Spells.eq_utf8EncodeChar {c : Char} {bytes : Bytes} (spells : Spells c bytes) :
    bytes = String.utf8EncodeChar c := by
  cases spells with
  | intro begins within =>
      cases begins with
      | one upper =>
          cases within
          rw [codePoint, List.foldl_nil, String.utf8EncodeChar, toNat_ofNat (.inl (by omega)),
            if_pos (by omega), UInt8.ofNat_toNat]
      | two lower upper =>
          rcases within with _ | ⟨second, ⟨⟩⟩
          exact (utf8EncodeChar_two lower upper second).symm
      | three lower upper =>
          rcases within with _ | ⟨second, _ | ⟨third, ⟨⟩⟩⟩
          exact (utf8EncodeChar_three lower upper second third).symm
      | four lower upper =>
          rcases within with _ | ⟨second, _ | ⟨third, _ | ⟨fourth, ⟨⟩⟩⟩⟩
          exact (utf8EncodeChar_four lower upper second third fourth).symm

theorem toNat_byte {value : Nat} (bound : value < 256) : (UInt8.ofNat value).toNat = value :=
  UInt8.toNat_ofNat_of_lt' bound

section Characters

variable {value : Nat} {first second third fourth : UInt8}

theorem spells_one (upper : value ≤ 0x7f) (firstBits : first.toNat = value) :
    Spells (Char.ofNat value) [first] := by
  have spelled := Spells.intro (.one (by omega : first.toNat < 0x80)) .nil
  rw [codePoint, List.foldl_nil, firstBits] at spelled
  exact spelled

theorem spells_two (lower : 0x7f < value) (upper : value ≤ 0x7ff)
    (firstBits : first.toNat = value / 64 % 32 + 192)
    (secondBits : second.toNat = value % 64 + 128) :
    Spells (Char.ofNat value) [first, second] := by
  have begins : Begins first (first.toNat - 0xc0) [continuation] := .two (by omega) (by omega)
  have within : continuation.contains second = true := contains_continuation_iff.mpr (by omega)
  have whole : codePoint (first.toNat - 0xc0) [second] = value := by
    simp only [codePoint, List.foldl_cons, List.foldl_nil]
    omega
  rw [← whole]
  exact .intro begins (.cons within .nil)

theorem spells_three (valid : value.isValidChar) (lower : 0x7ff < value) (upper : value ≤ 0xffff)
    (firstBits : first.toNat = value / 4096 % 16 + 224)
    (secondBits : second.toNat = value / 64 % 64 + 128)
    (thirdBits : third.toNat = value % 64 + 128) :
    Spells (Char.ofNat value) [first, second, third] := by
  unfold Nat.isValidChar at valid
  have begins : Begins first (first.toNat - 0xe0) [secondOfThree first, continuation] :=
    .three (by omega) (by omega)
  have secondWithin : (secondOfThree first).contains second = true :=
    contains_secondOfThree_iff.mpr (by omega)
  have thirdWithin : continuation.contains third = true :=
    contains_continuation_iff.mpr (by omega)
  have whole : codePoint (first.toNat - 0xe0) [second, third] = value := by
    simp only [codePoint, List.foldl_cons, List.foldl_nil]
    omega
  rw [← whole]
  exact .intro begins (.cons secondWithin (.cons thirdWithin .nil))

theorem spells_four (valid : value.isValidChar) (lower : 0xffff < value)
    (firstBits : first.toNat = value / 262144 % 8 + 240)
    (secondBits : second.toNat = value / 4096 % 64 + 128)
    (thirdBits : third.toNat = value / 64 % 64 + 128)
    (fourthBits : fourth.toNat = value % 64 + 128) :
    Spells (Char.ofNat value) [first, second, third, fourth] := by
  unfold Nat.isValidChar at valid
  have begins : Begins first (first.toNat - 0xf0) [secondOfFour first, continuation, continuation] :=
    .four (by omega) (by omega)
  have secondWithin : (secondOfFour first).contains second = true :=
    contains_secondOfFour_iff.mpr (by omega)
  have thirdWithin : continuation.contains third = true :=
    contains_continuation_iff.mpr (by omega)
  have fourthWithin : continuation.contains fourth = true :=
    contains_continuation_iff.mpr (by omega)
  have whole : codePoint (first.toNat - 0xf0) [second, third, fourth] = value := by
    simp only [codePoint, List.foldl_cons, List.foldl_nil]
    omega
  rw [← whole]
  exact .intro begins (.cons secondWithin (.cons thirdWithin (.cons fourthWithin .nil)))

end Characters

theorem spells_utf8EncodeChar (c : Char) : Spells c (String.utf8EncodeChar c) := by
  have valid : c.val.toNat.isValidChar := c.valid
  have same : Char.ofNat c.val.toNat = c := Char.ofNat_toNat c
  rw [String.utf8EncodeChar]
  generalize c.val.toNat = value at valid same
  subst same
  split
  · rename_i upper
    exact spells_one upper (toNat_byte (by omega))
  · rename_i lower
    split
    · rename_i upper
      apply spells_two (Nat.not_le.mp lower) upper
      · exact toNat_byte (by omega)
      · exact toNat_byte (by omega)
    · rename_i lower
      split
      · rename_i upper
        apply spells_three valid (Nat.not_le.mp lower) upper
        · exact toNat_byte (by omega)
        · exact toNat_byte (by omega)
        · exact toNat_byte (by omega)
      · rename_i lower
        apply spells_four valid (Nat.not_le.mp lower)
        · exact toNat_byte (by omega)
        · exact toNat_byte (by omega)
        · exact toNat_byte (by omega)
        · exact toNat_byte (by omega)

theorem decodeFrom_some {pending : Partial} {own : Bytes}
    (within : InRanges (pending.next :: pending.later) own) (position : Nat) (rest : Bytes) :
    decodeFrom position (some pending) (own ++ rest) =
      (decodeFrom (position + own.length) none rest).map
        (Char.ofNat (codePoint pending.value own) :: ·) := by
  induction own generalizing pending position with
  | nil => cases within
  | cons byte others inductionHypothesis =>
      obtain ⟨inRange, remaining⟩ := List.forall₂_cons.mp within
      rw [List.cons_append, decodeFrom, if_pos inRange]
      cases later : pending.later with
      | nil =>
          rw [later, List.forall₂_nil_left_iff] at remaining
          subst remaining
          rfl
      | cons next ranges =>
          rw [later] at remaining
          have total : position + (byte :: others).length = position + 1 + others.length := by
            rw [List.length_cons, Nat.add_right_comm, Nat.add_assoc]
          rw [total]
          exact @inductionHypothesis
            { pending with
              value := 64 * pending.value + byte.toNat % 64
              next := next
              later := ranges } remaining (position + 1)

/-- Bytes that are read as a character decode to it, whatever follows. -/
theorem decodeFrom_spelled {c : Char} {own : Bytes} (spells : Spells c own) (position : Nat)
    (rest : Bytes) :
    decodeFrom position none (own ++ rest) =
      (decodeFrom (position + own.length) none rest).map (c :: ·) := by
  cases spells with
  | @intro first value ranges others begins within =>
      rw [List.cons_append, decodeFrom, first?_eq_some_iff.mpr begins]
      cases ranges with
      | nil =>
          rw [List.forall₂_nil_left_iff.mp within]
          rfl
      | cons next later =>
          have total : position + (first :: others).length = position + 1 + others.length := by
            rw [List.length_cons, Nat.add_right_comm, Nat.add_assoc]
          rw [total]
          exact @decodeFrom_some ⟨position, first, value, next, later⟩ others within (position + 1)
            rest

theorem encode_cons (c : Char) (text : Text) :
    encode (c :: text) = String.utf8EncodeChar c ++ encode text :=
  List.flatMap_cons

theorem decodeFrom_encode (text : Text) (position : Nat) :
    decodeFrom position none (encode text) = .ok text := by
  induction text generalizing position with
  | nil => rfl
  | cons c rest inductionHypothesis =>
      rw [encode_cons, decodeFrom_spelled (spells_utf8EncodeChar c), inductionHypothesis]
      rfl

theorem decode_encode (text : Text) : decode (encode text) = .ok text :=
  decodeFrom_encode text 0

/-- Whether bytes decode as the last bytes of a character, which lie in some ranges, and a text after
it. -/
inductive Decodes (ranges : List ByteRange) (value : Nat) : Bytes → Text → Prop where
  | intro {own rest : Bytes} {position : Nat} {remaining : Text} (within : InRanges ranges own)
      (decoded : decodeFrom position none rest = .ok remaining) :
      Decodes ranges value (own ++ rest) (Char.ofNat (codePoint value own) :: remaining)

theorem decodes_nil {bytes : Bytes} {value position : Nat} {text : Text}
    (decoded : (decodeFrom position none bytes).map (Char.ofNat value :: ·) = .ok text) :
    Decodes [] value bytes text := by
  obtain ⟨rest, remaining, rfl⟩ := map_eq_ok decoded
  exact .intro .nil remaining

theorem decodes_of_decodeFrom_some {pending : Partial} {position : Nat} {bytes : Bytes}
    {text : Text} (decoded : decodeFrom position (some pending) bytes = .ok text) :
    Decodes (pending.next :: pending.later) pending.value bytes text := by
  induction bytes generalizing pending position with
  | nil => contradiction
  | cons byte others inductionHypothesis =>
      rw [decodeFrom] at decoded
      split at decoded
      · rename_i inRange
        have tail : Decodes pending.later (64 * pending.value + byte.toNat % 64) others text := by
          cases later : pending.later with
          | nil =>
              rw [later] at decoded
              exact decodes_nil decoded
          | cons next ranges =>
              rw [later] at decoded
              exact inductionHypothesis decoded
        cases tail with
        | @intro own rest place remaining within decodedRest =>
            have whole : InRanges (pending.next :: pending.later) (byte :: own) :=
              .cons inRange within
            exact .intro whole decodedRest
      · contradiction

theorem decodes_of_decodeFrom_none {first : UInt8} {others : Bytes} {position : Nat} {text : Text}
    (decoded : decodeFrom position none (first :: others) = .ok text) :
    ∃ value ranges, first? first = some (value, ranges) ∧ Decodes ranges value others text := by
  rw [decodeFrom] at decoded
  cases read : first? first with
  | none =>
      rw [read] at decoded
      contradiction
  | some parts =>
      rcases parts with ⟨value, ranges⟩
      rw [read] at decoded
      refine ⟨value, ranges, rfl, ?_⟩
      cases ranges with
      | nil => exact decodes_nil decoded
      | cons next later => exact decodes_of_decodeFrom_some decoded

theorem encode_of_decodeFrom {position : Nat} {bytes : Bytes} {text : Text}
    (decoded : decodeFrom position none bytes = .ok text) : encode text = bytes := by
  -- On the number of bytes, since a character takes several.
  induction total : bytes.length using Nat.strongRecOn
    generalizing bytes text position with
  | ind count inductionHypothesis =>
      cases bytes with
      | nil =>
          cases decoded
          rfl
      | cons first others =>
          obtain ⟨value, ranges, read, decodes⟩ := decodes_of_decodeFrom_none decoded
          cases decodes with
          | @intro own rest later remaining within decodedRest =>
              have spells := Spells.intro (first?_eq_some_iff.mp read) within
              have shorter : rest.length < count := by
                rw [List.length_cons, List.length_append] at total
                omega
              rw [encode_cons, ← spells.eq_utf8EncodeChar, List.cons_append,
                inductionHypothesis rest.length shorter decodedRest rfl]

/-- What decodes to a text is what the text is encoded as. -/
theorem encode_of_decode {bytes : Bytes} {text : Text} (decoded : decode bytes = .ok text) :
    encode text = bytes :=
  encode_of_decodeFrom decoded

end Utf8

end EnumBlocks
