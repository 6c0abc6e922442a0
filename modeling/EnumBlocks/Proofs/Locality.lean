import EnumBlocks.Proofs.Span

/-!
What a located span is. It goes from the first line that declares the block over the first line from
there on that opens a brace to the first line from there on behind which the braces opened since are
closed. Nothing behind these lines matters to it, and lines in front only shift it, unless they
declare the block. A block has no span if one of the three lines is missing.
-/

namespace EnumBlocks

def IsHead (name : Text) (lines : List Text) (head : Nat) : Prop :=
  Undeclared name (lines.take head) ∧ ∃ line ∈ lines[head]?, declares name line = true

def Unopened (counting : Counting) (lines : List Text) : Prop :=
  ∀ line ∈ lines, counting.opens line = false

structure IsOpening (counting : Counting) (lines : List Text) (head opening : Nat) : Prop where
  head_le : head ≤ opening
  unopened : Unopened counting ((lines.take opening).drop head)
  opens : ∃ line ∈ lines[opening]?, counting.opens line = true

/-- How far the lines from `opening` on, up to the one at `place`, change the depth of nesting. -/
def depthBehind (counting : Counting) (lines : List Text) (opening place : Nat) : Int :=
  counting.total ((lines.take (place + 1)).drop opening)

/-- Whether a line is the first from `opening` on behind which the depth is not above zero. -/
structure IsClosing (counting : Counting) (lines : List Text) (opening closing : Nat) : Prop where
  opening_le : opening ≤ closing
  inside : closing < lines.length
  deep : ∀ place, opening ≤ place → place < closing → 0 < depthBehind counting lines opening place
  level : depthBehind counting lines opening closing ≤ 0

/-- Whether a span goes from the first declaration of a name over the first brace behind it to where
its braces balance. -/
structure IsSpanOf (name : Text) (counting : Counting) (lines : List Text) (span : Span) : Prop where
  head : IsHead name lines span.head
  opening : IsOpening counting lines span.head span.opening
  closing : IsClosing counting lines span.opening span.closing

/-- Why the block of a name has no span. -/
inductive IsUnlocated (name : Text) (counting : Counting) (lines : List Text) : SpanError → Prop where
  | undeclared (absent : Undeclared name lines) :
      IsUnlocated name counting lines (.undeclared name)
  | unopened {head : Nat} (isHead : IsHead name lines head)
      (unopened : Unopened counting (lines.drop head)) :
      IsUnlocated name counting lines (.unopened name head)
  | unclosed {head opening : Nat} (isHead : IsHead name lines head)
      (isOpening : IsOpening counting lines head opening)
      (deep : ∀ place, opening ≤ place → place < lines.length →
        0 < depthBehind counting lines opening place) :
      IsUnlocated name counting lines (.unclosed name)

theorem findIdx?_eq_some_iff_take {test : Text → Bool} {lines : List Text} {place : Nat} :
    lines.findIdx? test = some place ↔
      (∀ line ∈ lines.take place, test line = false) ∧ ∃ line ∈ lines[place]?, test line = true := by
  rw [List.findIdx?_eq_some_iff_getElem]
  constructor
  · rintro ⟨inside, passes, earlier⟩
    refine ⟨?_, lines[place], List.getElem?_eq_getElem inside, passes⟩
    intro line membership
    obtain ⟨other, before, rfl⟩ := List.mem_take_iff_getElem.mp membership
    exact Bool.eq_false_iff.mpr (earlier other (by omega))
  · rintro ⟨fails, line, found, passes⟩
    obtain ⟨inside, rfl⟩ := List.getElem?_eq_some_iff.mp found
    refine ⟨inside, passes, fun other before => ?_⟩
    rw [Bool.not_eq_true]
    exact fails _ (List.mem_take_iff_getElem.mpr ⟨other, by omega, rfl⟩)

theorem headLine?_eq_some_iff {name : Text} {lines : List Text} {head : Nat} :
    headLine? name lines = some head ↔ IsHead name lines head :=
  findIdx?_eq_some_iff_take

section Braces

variable {counting : Counting} {lines : List Text} {head opening closing : Nat}

theorem openingLine?_eq_none_iff :
    openingLine? counting head lines = none ↔ Unopened counting (lines.drop head) := by
  rw [openingLine?, Option.map_eq_none_iff]
  exact List.findIdx?_eq_none_iff

theorem openingLine?_eq_some_iff :
    openingLine? counting head lines = some opening ↔ IsOpening counting lines head opening := by
  simp only [openingLine?, Option.map_eq_some_iff, findIdx?_eq_some_iff_take, List.getElem?_drop]
  constructor
  · rintro ⟨offset, ⟨unopened, opens⟩, rfl⟩
    refine ⟨Nat.le_add_right head offset, ?_, opens⟩
    rw [List.drop_take, Nat.add_sub_cancel_left]
    exact unopened
  · rintro ⟨ordered, unopened, opens⟩
    have whole : head + (opening - head) = opening := by omega
    rw [List.drop_take] at unopened
    exact ⟨opening - head, ⟨unopened, by rwa [whole]⟩, whole⟩

theorem forall_take_cons_iff {depth : Int} {line : Text} {rest : List Text} {count : Nat} :
    (∀ place < count + 1, 0 < depth + counting.total ((line :: rest).take (place + 1))) ↔
      0 < depth + counting.delta line ∧ ∀ place < count,
        0 < depth + counting.delta line + counting.total (rest.take (place + 1)) := by
  rw [Nat.forall_lt_succ_left']
  simp [Int.add_assoc]

/-- The braces balance behind the first line at which the depth is not above zero. -/
theorem linesToClose?_eq_some_iff {depth : Int} {count : Nat} :
    linesToClose? counting depth lines = some count ↔
      count < lines.length ∧
        (∀ place < count, 0 < depth + counting.total (lines.take (place + 1))) ∧
        depth + counting.total (lines.take (count + 1)) ≤ 0 := by
  induction lines generalizing depth count with
  | nil => simp [linesToClose?]
  | cons line rest inductionHypothesis =>
      rw [linesToClose?]
      by_cases closes : depth + counting.delta line ≤ 0
      · rw [if_pos closes]
        cases count with
        | zero => simpa using closes
        | succ count =>
            rw [forall_take_cons_iff]
            simp [Int.not_lt.mpr closes]
      · rw [if_neg closes]
        cases count with
        | zero => simpa using closes
        | succ count =>
            have deep := Int.not_le.mp closes
            rw [forall_take_cons_iff]
            simp [inductionHypothesis, deep, Int.add_assoc]

theorem linesToClose?_eq_none_iff {depth : Int} :
    linesToClose? counting depth lines = none ↔
      ∀ place < lines.length, 0 < depth + counting.total (lines.take (place + 1)) := by
  induction lines generalizing depth with
  | nil => simp [linesToClose?]
  | cons line rest inductionHypothesis =>
      rw [linesToClose?, List.length_cons, forall_take_cons_iff]
      by_cases closes : depth + counting.delta line ≤ 0
      · simp [closes, Int.not_lt.mpr closes]
      · simp [closes, Int.not_le.mp closes, inductionHypothesis]

theorem depthBehind_add (opening offset : Nat) :
    depthBehind counting lines opening (opening + offset) =
      counting.total ((lines.drop opening).take (offset + 1)) := by
  rw [depthBehind, List.drop_take, Nat.add_assoc, Nat.add_sub_cancel_left]

theorem forall_depthBehind_iff {bound : Nat} :
    (∀ place, opening ≤ place → place < opening + bound →
        0 < depthBehind counting lines opening place) ↔
      ∀ offset < bound, 0 < counting.total ((lines.drop opening).take (offset + 1)) := by
  constructor
  · intro deep offset within
    rw [← depthBehind_add]
    exact deep _ (Nat.le_add_right opening offset) (by omega)
  · intro deep place later within
    obtain ⟨offset, rfl⟩ := Nat.exists_eq_add_of_le later
    rw [depthBehind_add]
    exact deep offset (by omega)

theorem closingLine?_eq_some_iff :
    closingLine? counting opening lines = some closing ↔
      IsClosing counting lines opening closing := by
  simp only [closingLine?, Option.map_eq_some_iff, linesToClose?_eq_some_iff, List.length_drop,
    Int.zero_add]
  constructor
  · rintro ⟨offset, ⟨inside, deep, level⟩, rfl⟩
    exact ⟨Nat.le_add_right opening offset, by omega, forall_depthBehind_iff.mpr deep,
      by rwa [depthBehind_add]⟩
  · rintro ⟨ordered, inside, deep, level⟩
    obtain ⟨offset, rfl⟩ := Nat.exists_eq_add_of_le ordered
    rw [depthBehind_add] at level
    exact ⟨offset, ⟨by omega, forall_depthBehind_iff.mp deep, level⟩, rfl⟩

theorem closingLine?_eq_none_iff :
    closingLine? counting opening lines = none ↔
      ∀ place, opening ≤ place → place < lines.length →
        0 < depthBehind counting lines opening place := by
  have bound : ∀ place, opening ≤ place →
      (place < lines.length ↔ place < opening + (lines.length - opening)) := by omega
  simp only [closingLine?, Option.map_eq_none_iff, linesToClose?_eq_none_iff, List.length_drop,
    Int.zero_add, ← forall_depthBehind_iff]
  exact forall₂_congr fun place later => imp_congr_left (bound place later).symm

end Braces

section Located

variable {name : Text} {lines : List Text} {counting : Counting}

theorem spanOf_eq_ok_iff_isSpanOf {span : Span} :
    spanOf name lines counting = .ok span ↔ IsSpanOf name counting lines span := by
  rw [spanOf_eq_ok_iff, headLine?_eq_some_iff, openingLine?_eq_some_iff, closingLine?_eq_some_iff]
  constructor
  · rintro ⟨head, opening, closing⟩
    exact ⟨head, opening, closing⟩
  · rintro ⟨head, opening, closing⟩
    exact ⟨head, opening, closing⟩

theorem spanOf_eq_error_iff {cause : SpanError} :
    spanOf name lines counting = .error cause ↔ IsUnlocated name counting lines cause := by
  constructor
  · intro failed
    unfold spanOf at failed
    split at failed
    · rename_i headless
      cases failed
      exact .undeclared (headLine?_eq_none_iff.mp headless)
    · rename_i head headed
      have isHead := headLine?_eq_some_iff.mp headed
      split at failed
      · rename_i unopened
        cases failed
        exact .unopened isHead (openingLine?_eq_none_iff.mp unopened)
      · rename_i opening opened
        split at failed
        · rename_i unclosed
          cases failed
          exact .unclosed isHead (openingLine?_eq_some_iff.mp opened)
            (closingLine?_eq_none_iff.mp unclosed)
        · contradiction
  · intro unlocated
    cases unlocated with
    | undeclared absent => exact spanOf_of_undeclared absent counting
    | unopened isHead unopened =>
        rw [spanOf, headLine?_eq_some_iff.mpr isHead]
        simp only [openingLine?_eq_none_iff.mpr unopened]
    | unclosed isHead isOpening deep =>
        rw [spanOf, headLine?_eq_some_iff.mpr isHead]
        simp only [openingLine?_eq_some_iff.mpr isOpening, closingLine?_eq_none_iff.mpr deep]

/-- A block is where it was among its lines when others stand in front of them and behind. -/
theorem spanOf_between {span : Span} (located : spanOf name lines counting = .ok span)
    {before : List Text} (absent : Undeclared name before) (after : List Text) :
    spanOf name (before ++ lines ++ after) counting = .ok (span.shift before.length) :=
  spanOf_append_right ((spanOf_append_left absent lines _).mpr ⟨span, located, rfl⟩) after

end Located

/-- A block is located at a span exactly if that goes from the first line declaring it over the first
brace from there on to the first line behind which the braces are closed; it is then found there,
shifted, whatever stands in front that does not declare it, and whatever stands behind. It is not
located exactly if no line declares it, or no brace opens from its declaration on, or the depth stays
above zero from that brace to the end. -/
theorem spanOf_exact_and_local (name : Text) (lines : List Text) (counting : Counting) :
    (∀ span, spanOf name lines counting = .ok span ↔ IsSpanOf name counting lines span) ∧
      (∀ span, spanOf name lines counting = .ok span → ∀ before, Undeclared name before →
        ∀ after, spanOf name (before ++ lines ++ after) counting =
          .ok (span.shift before.length)) ∧
      ∀ cause, spanOf name lines counting = .error cause ↔
        IsUnlocated name counting lines cause := by
  refine ⟨fun span => spanOf_eq_ok_iff_isSpanOf, ?_, fun cause => spanOf_eq_error_iff⟩
  intro span located before absent after
  exact spanOf_between located absent after

def commentedBrace : List Text :=
  [['e', 'n', 'u', 'm', ' ', 'A'], ['{'], ['X', ',', '/', '/', '}'], ['}']]

/-- Counted by lines the block ends with the brace in the comment, and without its last line it is
not closed. -/
theorem spanOf_exact_and_local_commentedBrace :
    IsSpanOf ['A'] .perCharacter commentedBrace ⟨0, 1, 3⟩ ∧
      IsSpanOf ['A'] .perLine commentedBrace ⟨0, 1, 2⟩ ∧
      spanOf ['A'] ([['{'], ['e', 'n', 'u', 'm', ' ', 'B']] ++ commentedBrace ++ [['{']])
        .perCharacter = .ok ⟨2, 3, 5⟩ ∧
      IsUnlocated ['A'] .perCharacter (commentedBrace.take 3) (.unclosed ['A']) := by
  obtain ⟨located, surrounded, -⟩ := spanOf_exact_and_local ['A'] commentedBrace .perCharacter
  obtain ⟨locatedByLines, -, -⟩ := spanOf_exact_and_local ['A'] commentedBrace .perLine
  obtain ⟨-, -, unlocated⟩ := spanOf_exact_and_local ['A'] (commentedBrace.take 3) .perCharacter
  exact ⟨(located _).mp rfl, (locatedByLines _).mp rfl,
    surrounded ⟨0, 1, 3⟩ rfl _ (by decide) [['{']], (unlocated _).mp rfl⟩

end EnumBlocks
