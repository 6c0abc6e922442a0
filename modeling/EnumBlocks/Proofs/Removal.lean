import EnumBlocks.Proofs.Independence

/-!
Removing a block. Its lines go, and the line just before them if that is blank; all others stay. No
block ends in a blank line, so the line that goes as well belongs to no other block, and every block
apart from the removed one can be located where its lines have come to stand.
-/

namespace EnumBlocks

theorem not_isBlankText_of_linesToClose? {counting : Counting} {lines : List Text} {depth : Int}
    {count : Nat} (closed : linesToClose? counting depth lines = some count)
    (inside : 0 < depth ∨ ∀ line ∈ lines.head?, Text.isBlankText line = false) :
    ∀ line ∈ lines[count]?, Text.isBlankText line = false := by
  induction lines generalizing depth count with
  | nil => simp [linesToClose?] at closed
  | cons line rest inductionHypothesis =>
      rw [linesToClose?] at closed
      split at closed
      · rename_i balanced
        cases closed
        intro last membership
        rw [List.getElem?_cons_zero, Option.mem_some_iff] at membership
        subst membership
        rcases inside with positive | written
        · rw [Bool.eq_false_iff]
          intro blank
          rw [delta_of_braceless counting (braceless_of_isBlankText blank)] at balanced
          omega
        · exact written line rfl
      · rename_i unbalanced
        obtain ⟨fewer, found, rfl⟩ := Option.map_eq_some_iff.mp closed
        rw [List.getElem?_cons_succ]
        exact inductionHypothesis found (.inl (Int.not_le.mp unbalanced))

theorem not_isBlankText_closing {name : Text} {lines : List Text} {counting : Counting}
    {span : Span} (located : spanOf name lines counting = .ok span) :
    ∀ line ∈ lines[span.closing]?, Text.isBlankText line = false := by
  obtain ⟨-, opened, closed⟩ := spanOf_eq_ok_iff.mp located
  obtain ⟨offset, found, opening⟩ := Option.map_eq_some_iff.mp opened
  obtain ⟨count, balanced, closing⟩ := Option.map_eq_some_iff.mp closed
  obtain ⟨inside, opens, -⟩ := List.findIdx?_eq_some_iff_getElem.mp found
  have first : ∀ line ∈ (lines.drop span.opening).head?, Text.isBlankText line = false := by
    intro line membership
    rw [List.head?_drop, ← opening, ← List.getElem?_drop, List.getElem?_eq_getElem inside,
      Option.mem_some_iff] at membership
    rw [← membership, Bool.eq_false_iff]
    intro blank
    rw [opens_of_braceless counting (braceless_of_isBlankText blank)] at opens
    contradiction
  have last := not_isBlankText_of_linesToClose? balanced (.inr first)
  rwa [List.getElem?_drop, closing] at last

theorem IsExtent.not_isBlankText_getLast {name : Text} {counting : Counting} {body : List Text}
    {opening : Nat} (extent : IsExtent name counting body opening) :
    ∃ last, body.getLast? = some last ∧ Text.isBlankText last = false := by
  have bounds := spanOf_bounds extent
  have found := List.getElem?_eq_getElem bounds.2.2
  rw [List.getLast?_eq_getElem?]
  exact ⟨_, found, not_isBlankText_closing extent _ found⟩

theorem dropBlankEnd_append (front : List Text) {lines : List Text} (nonempty : lines ≠ []) :
    Splice.dropBlankEnd (front ++ lines) = front ++ Splice.dropBlankEnd lines := by
  unfold Splice.dropBlankEnd
  rw [List.getLast?_append_of_ne_nil front nonempty, List.dropLast_append_of_ne_nil nonempty]
  cases lines.getLast? with
  | none => rfl
  | some last =>
      simp only
      split <;> rfl

/-- How many lines go with a block that is removed: the one just before it, if that is blank. -/
def Span.blankBefore (span : Span) (lines : List Text) : Nat :=
  match span.head with
  | 0 => 0
  | above + 1 => if lines[above]?.any Text.isBlankText then 1 else 0

theorem dropBlankEnd_take_head {span : Span} {lines : List Text}
    (inside : span.head ≤ lines.length) :
    Splice.dropBlankEnd (lines.take span.head) =
      lines.take (span.head - span.blankBefore lines) := by
  rw [Span.blankBefore]
  cases place : span.head with
  | zero => rfl
  | succ above =>
      have within : above < lines.length := by omega
      have whole := List.take_succ_eq_append_getElem within
      rw [whole, dropBlankEnd_append _ (List.cons_ne_nil _ _)]
      simp only [List.getElem?_eq_getElem within, Option.any_some]
      cases blank : Text.isBlankText lines[above] with
      | true => simp [Splice.dropBlankEnd, blank]
      | false =>
          have kept : Splice.dropBlankEnd [lines[above]] = [lines[above]] := by
            simp [Splice.dropBlankEnd, blank]
          rw [kept, ← whole]
          rfl

section Removed

variable {name : Text} {lines : List Text} {span : Span}

/-- The lines that are left when a block is removed. -/
theorem remove_eq_take_append_drop {settings : Settings}
    (located : spanOf name lines settings.counting = .ok span) :
    Splice.remove name lines settings =
      .ok ⟨lines.take (span.head - span.blankBefore lines) ++ lines.drop (span.closing + 1),
        span⟩ := by
  have bounds := spanOf_bounds located
  rw [remove_eq located, dropBlankEnd_take_head (by omega)]

variable {counting : Counting} (located : spanOf name lines counting = .ok span)

include located in
theorem undeclared_outside (once : lines.countP (declares name) = 1) :
    Undeclared name (lines.take span.head) ∧ Undeclared name (lines.drop (span.closing + 1)) := by
  have front := undeclared_take_head located
  refine ⟨front, ?_⟩
  obtain ⟨header, rest, shape, declared⟩ := (isExtent_extract located).exists_header
  rw [take_append_extract_append_drop located, List.countP_append, List.countP_append, shape,
    List.countP_cons_of_pos declared] at once
  rw [← countP_declares_eq_zero_iff] at front ⊢
  omega

theorem closing_lt_of_closing_lt_head {other : Text} {otherSpan : Span}
    (otherLocated : spanOf other lines counting = .ok otherSpan)
    (earlier : otherSpan.closing < span.head) :
    otherSpan.closing < span.head - span.blankBefore lines := by
  have last := not_isBlankText_closing otherLocated
  rw [Span.blankBefore]
  cases place : span.head with
  | zero => omega
  | succ above =>
      simp only
      split
      · rename_i blank
        have different : otherSpan.closing ≠ above := by
          rintro rfl
          cases found : lines[otherSpan.closing]? with
          | none => simp [found] at blank
          | some line => simp [found, last line found] at blank
        omega
      · omega

end Removed

/-- Removing a block that is declared once leaves all lines but its own and a blank one before them,
and every block apart from it. -/
theorem remove_independent {name : Text} {lines : List Text} {settings : Settings} {span : Span}
    (once : lines.countP (declares name) = 1)
    (located : spanOf name lines settings.counting = .ok span) :
    ∃ splice, Splice.remove name lines settings = .ok splice ∧
      splice.lines =
        lines.take (span.head - span.blankBefore lines) ++ lines.drop (span.closing + 1) ∧
      Undeclared name splice.lines ∧
      spanOf name splice.lines settings.counting = .error (.undeclared name) ∧
      ∀ other otherSpan, spanOf other lines settings.counting = .ok otherSpan →
        span.Apart otherSpan →
        ∃ moved, spanOf other splice.lines settings.counting = .ok moved ∧
          (otherSpan.closing < span.head → moved = otherSpan) ∧
          (span.closing < otherSpan.head →
            otherSpan.MovedBy (splice.lines.length - lines.length) moved) ∧
          moved.extract splice.lines = otherSpan.extract lines := by
  have bounds := spanOf_bounds located
  have front : (lines.take (span.head - span.blankBefore lines)).length =
      span.head - span.blankBefore lines := by
    rw [List.length_take]
    omega
  have within : lines.take (span.head - span.blankBefore lines) ⊆ lines.take span.head :=
    List.take_subset_take_left lines (Nat.sub_le _ _)
  obtain ⟨frontAbsent, backAbsent⟩ := undeclared_outside located once
  have absent : Undeclared name
      (lines.take (span.head - span.blankBefore lines) ++ lines.drop (span.closing + 1)) :=
    undeclared_append.mpr ⟨fun line membership => frontAbsent line (within membership), backAbsent⟩
  refine ⟨_, remove_eq_take_append_drop located, rfl, absent, ?_, ?_⟩
  · rw [spanOf, headLine?_eq_none_iff.mpr absent]
  · intro other otherSpan otherLocated apart
    have otherBounds := spanOf_bounds otherLocated
    rcases apart with later | earlier
    · have otherAbsent :
          Undeclared other (lines.take (span.head - span.blankBefore lines)) := by
        intro line membership
        apply undeclared_take_head otherLocated
        exact List.take_subset_take_left lines (by omega) (within membership)
      obtain ⟨own, rfl, found, same⟩ :=
        spanOf_append_drop otherLocated (Nat.succ_le_of_lt later) otherAbsent
      refine ⟨_, found, ?_, ?_, same⟩
      · intro impossible
        omega
      · intro _
        simp only [Span.MovedBy, Span.shift, List.length_append, List.length_drop, front]
          at otherBounds ⊢
        omega
    · have before : otherSpan.closing < span.head - span.blankBefore lines :=
        closing_lt_of_closing_lt_head otherLocated earlier
      refine ⟨otherSpan, spanOf_take_append otherLocated before _, fun _ => rfl, ?_, ?_⟩
      · intro impossible
        omega
      · exact extract_take_append before (by omega) _

def spacedBlocks : List Text :=
  [['e', 'n', 'u', 'm', ' ', 'A', '{', '}'], [' '], ['e', 'n', 'u', 'm', ' ', 'B', '{', '}'],
   ['e', 'n', 'u', 'm', ' ', 'C', '{', '}']]

theorem remove_independent_spacedBlocks :
    ∃ splice, Splice.remove ['B'] spacedBlocks {} = .ok splice ∧
      splice.lines = spacedBlocks.take 1 ++ spacedBlocks.drop 3 ∧
      spanOf ['A'] splice.lines .perCharacter = .ok ⟨0, 0, 0⟩ ∧
      ∃ moved, spanOf ['C'] splice.lines .perCharacter = .ok moved ∧
        Span.MovedBy (-2) ⟨3, 3, 3⟩ moved := by
  have located : spanOf ['B'] spacedBlocks .perCharacter = .ok ⟨2, 2, 2⟩ := rfl
  have first : spanOf ['A'] spacedBlocks .perCharacter = .ok ⟨0, 0, 0⟩ := rfl
  have last : spanOf ['C'] spacedBlocks .perCharacter = .ok ⟨3, 3, 3⟩ := rfl
  obtain ⟨splice, removed, lines, -, -, others⟩ := @remove_independent ['B'] spacedBlocks {} _
    (by decide) located
  obtain ⟨kept, keptLocated, same, -, -⟩ := others _ _ first (.inr (by decide))
  obtain ⟨moved, movedLocated, -, shifted, -⟩ := others _ _ last (.inl (by decide))
  rw [same (by decide)] at keptLocated
  refine ⟨splice, removed, lines, keptLocated, moved, movedLocated, ?_⟩
  have offset := shifted (by decide)
  rw [lines] at offset
  exact offset

end EnumBlocks
