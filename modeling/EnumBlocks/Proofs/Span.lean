import EnumBlocks.Span
import Mathlib.Data.List.Basic
import Mathlib.Data.List.TakeDrop

/-!
The extent of a block depends on the lines of the block alone. It is not changed by what follows the
closing line, and lines in front that do not declare the block only shift it.
-/

namespace EnumBlocks

def Span.shift (span : Span) (count : Nat) : Span :=
  ⟨span.head + count, span.opening + count, span.closing + count⟩

def Span.extract (span : Span) (lines : List Text) : List Text :=
  (lines.take (span.closing + 1)).drop span.head

def Span.Apart (span other : Span) : Prop :=
  span.closing < other.head ∨ other.closing < span.head

/-- Whether some lines are exactly the lines of the block of a name, whose first brace opens on the
line at `opening`. -/
def IsExtent (name : Text) (counting : Counting) (body : List Text) (opening : Nat) : Prop :=
  spanOf name body counting = .ok ⟨0, opening, body.length - 1⟩

def Undeclared (name : Text) (lines : List Text) : Prop :=
  ∀ line ∈ lines, declares name line = false

instance (name : Text) (lines : List Text) : Decidable (Undeclared name lines) :=
  inferInstanceAs (Decidable (∀ line ∈ lines, declares name line = false))

theorem undeclared_nil (name : Text) : Undeclared name [] := by
  intro line membership
  contradiction

theorem undeclared_append {name : Text} {first second : List Text} :
    Undeclared name (first ++ second) ↔ Undeclared name first ∧ Undeclared name second := by
  simp only [Undeclared, List.mem_append]
  constructor
  · intro absent
    exact ⟨fun line membership => absent line (.inl membership),
      fun line membership => absent line (.inr membership)⟩
  · rintro ⟨firstAbsent, secondAbsent⟩ line (membership | membership)
    · exact firstAbsent line membership
    · exact secondAbsent line membership

theorem headLine?_eq_none_iff {name : Text} {lines : List Text} :
    headLine? name lines = none ↔ Undeclared name lines :=
  List.findIdx?_eq_none_iff

theorem spanOf_of_undeclared {name : Text} {lines : List Text} (absent : Undeclared name lines)
    (counting : Counting) : spanOf name lines counting = .error (.undeclared name) := by
  rw [spanOf, headLine?_eq_none_iff.mpr absent]

theorem countP_declares_eq_zero_iff {name : Text} {lines : List Text} :
    lines.countP (declares name) = 0 ↔ Undeclared name lines := by
  rw [List.countP_eq_zero]
  simp only [Undeclared, Bool.not_eq_true]

theorem spanOf_eq_ok_iff {name : Text} {lines : List Text} {counting : Counting} {span : Span} :
    spanOf name lines counting = .ok span ↔
      headLine? name lines = some span.head ∧
        openingLine? counting span.head lines = some span.opening ∧
        closingLine? counting span.opening lines = some span.closing := by
  unfold spanOf
  cases headLine? name lines with
  | none => simp
  | some head =>
      cases opened : openingLine? counting head lines with
      | none =>
          simp only [opened, Option.some.injEq, reduceCtorEq, false_iff, not_and]
          rintro rfl found
          rw [opened] at found
          contradiction
      | some opening =>
          cases closed : closingLine? counting opening lines with
          | none =>
              simp only [opened, closed, Option.some.injEq, reduceCtorEq, false_iff, not_and]
              rintro rfl found
              rw [opened, Option.some.injEq] at found
              rw [← found, closed]
              simp
          | some closing =>
              simp only [opened, closed, Except.ok.injEq, Option.some.injEq]
              constructor
              · rintro rfl
                exact ⟨rfl, opened, closed⟩
              · rintro ⟨rfl, foundOpening, foundClosing⟩
                rw [opened, Option.some.injEq] at foundOpening
                subst foundOpening
                rw [closed, Option.some.injEq] at foundClosing
                subst foundClosing
                rfl

theorem linesToClose?_append {counting : Counting} {depth : Int} {lines : List Text} {count : Nat}
    (closed : linesToClose? counting depth lines = some count) (after : List Text) :
    linesToClose? counting depth (lines ++ after) = some count := by
  induction lines generalizing depth count with
  | nil => simp [linesToClose?] at closed
  | cons line rest inductionHypothesis =>
      simp only [linesToClose?, List.cons_append] at closed ⊢
      split
      · rename_i balanced
        rw [if_pos balanced] at closed
        exact closed
      · rename_i unbalanced
        rw [if_neg unbalanced] at closed
        obtain ⟨fewer, found, rfl⟩ := Option.map_eq_some_iff.mp closed
        rw [inductionHypothesis found]
        rfl

theorem linesToClose?_take {counting : Counting} {depth : Int} {lines : List Text} {count : Nat}
    (closed : linesToClose? counting depth lines = some count) :
    count < lines.length ∧
      linesToClose? counting depth (lines.take (count + 1)) = some count := by
  induction lines generalizing depth count with
  | nil => simp [linesToClose?] at closed
  | cons line rest inductionHypothesis =>
      simp only [linesToClose?, List.take_succ_cons, List.length_cons] at closed ⊢
      split
      · rename_i balanced
        rw [if_pos balanced] at closed
        cases closed
        exact ⟨Nat.succ_pos _, rfl⟩
      · rename_i unbalanced
        rw [if_neg unbalanced] at closed
        obtain ⟨fewer, found, rfl⟩ := Option.map_eq_some_iff.mp closed
        obtain ⟨bound, taken⟩ := inductionHypothesis found
        rw [taken]
        exact ⟨Nat.succ_lt_succ bound, rfl⟩

def Counting.total (counting : Counting) (lines : List Text) : Int :=
  (lines.map counting.delta).foldr (· + ·) 0

/-- Whether the depth of nesting, `depth` before some lines, is above zero there and after each of
them. -/
def StaysOpen (counting : Counting) (depth : Int) (lines : List Text) : Prop :=
  ∀ front, front <+: lines → 0 < depth + counting.total front

section Depth

variable {counting : Counting} {depth : Int}

@[simp]
theorem total_nil (counting : Counting) : counting.total [] = 0 := rfl

@[simp]
theorem total_cons (counting : Counting) (line : Text) (rest : List Text) :
    counting.total (line :: rest) = counting.delta line + counting.total rest := by
  rfl

theorem total_append (counting : Counting) (first second : List Text) :
    counting.total (first ++ second) = counting.total first + counting.total second := by
  induction first with
  | nil => simp
  | cons line rest inductionHypothesis =>
      rw [List.cons_append, total_cons, total_cons, inductionHypothesis]
      omega

theorem total_take_le_of_linesToClose? {lines : List Text} {count : Nat}
    (closed : linesToClose? counting depth lines = some count) :
    depth + counting.total (lines.take (count + 1)) ≤ 0 := by
  induction lines generalizing depth count with
  | nil => simp [linesToClose?] at closed
  | cons line rest inductionHypothesis =>
      rw [linesToClose?] at closed
      rw [List.take_succ_cons, total_cons]
      split at closed
      · rename_i balanced
        cases closed
        simpa using balanced
      · obtain ⟨fewer, found, rfl⟩ := Option.map_eq_some_iff.mp closed
        have shallow := inductionHypothesis found
        omega

theorem staysOpen_cons_iff {line : Text} {rest : List Text} :
    StaysOpen counting depth (line :: rest) ↔
      0 < depth ∧ StaysOpen counting (depth + counting.delta line) rest := by
  unfold StaysOpen
  constructor
  · intro above
    constructor
    · simpa using above [] List.nil_prefix
    · intro front isStart
      have longer := above (line :: front) (List.cons_prefix_cons.mpr ⟨rfl, isStart⟩)
      rw [total_cons] at longer
      omega
  · rintro ⟨start, above⟩ front isStart
    rcases List.prefix_cons_iff.mp isStart with rfl | ⟨tail, rfl, within⟩
    · simpa using start
    · have further := above tail within
      rw [total_cons]
      omega

theorem staysOpen_iff {lines : List Text} :
    StaysOpen counting depth lines ↔ 0 < depth ∧ linesToClose? counting depth lines = none := by
  induction lines generalizing depth with
  | nil => simp [StaysOpen, linesToClose?]
  | cons line rest inductionHypothesis =>
      rw [staysOpen_cons_iff, inductionHypothesis, linesToClose?]
      by_cases closes : depth + counting.delta line ≤ 0
      · simp [closes, Int.not_lt.mpr closes]
      · simp [closes, Int.not_le.mp closes]

instance (counting : Counting) (depth : Int) (lines : List Text) :
    Decidable (StaysOpen counting depth lines) :=
  decidable_of_iff (0 < depth ∧ linesToClose? counting depth lines = none) staysOpen_iff.symm

theorem linesToClose?_append_of_staysOpen {first : List Text}
    (stays : StaysOpen counting depth first) (second : List Text) :
    linesToClose? counting depth (first ++ second) =
      (linesToClose? counting (depth + counting.total first) second).map (· + first.length) := by
  induction first generalizing depth with
  | nil => simp
  | cons line rest inductionHypothesis =>
      have further := (staysOpen_cons_iff.mp stays).2
      have above := (staysOpen_iff.mp further).1
      rw [List.cons_append, linesToClose?, if_neg (Int.not_le.mpr above),
        inductionHypothesis further, total_cons, Int.add_assoc, Option.map_map]
      rfl

theorem StaysOpen.congr {first second : List Text}
    (same : first.map counting.delta = second.map counting.delta)
    (stays : StaysOpen counting depth first) : StaysOpen counting depth second := by
  intro front isStart
  have taken := List.prefix_iff_eq_take.mp isStart
  have equal : counting.total (first.take front.length) = counting.total front := by
    rw [Counting.total, List.map_take, same, ← List.map_take, ← taken, Counting.total]
  rw [← equal]
  exact stays _ (List.take_prefix _ _)

section Level

variable {lines : List Text} (level : ∀ line ∈ lines, counting.delta line = 0)

include level in
theorem total_of_level : counting.total lines = 0 := by
  induction lines with
  | nil => rfl
  | cons line rest inductionHypothesis =>
      rw [List.forall_mem_cons] at level
      rw [total_cons, level.1, inductionHypothesis level.2]
      rfl

include level in
theorem staysOpen_of_level (inside : 0 < depth) : StaysOpen counting depth lines := by
  rintro front isStart
  rw [total_of_level fun line membership => level line (isStart.subset membership)]
  omega

end Level

end Depth

section Shift

variable {name : Text} {counting : Counting} {before : List Text} (absent : Undeclared name before)

theorem openingLine?_append_left (start : Nat) (before lines : List Text) :
    openingLine? counting (start + before.length) (before ++ lines) =
      (openingLine? counting start lines).map (· + before.length) := by
  have tail : (before ++ lines).drop (start + before.length) = lines.drop start := by
    rw [Nat.add_comm, List.drop_length_add_append]
  rw [openingLine?, tail, openingLine?, Option.map_map]
  congr 1
  funext index
  simp only [Function.comp_apply]
  omega

theorem closingLine?_append_left (start : Nat) (before lines : List Text) :
    closingLine? counting (start + before.length) (before ++ lines) =
      (closingLine? counting start lines).map (· + before.length) := by
  have tail : (before ++ lines).drop (start + before.length) = lines.drop start := by
    rw [Nat.add_comm, List.drop_length_add_append]
  rw [closingLine?, tail, closingLine?, Option.map_map]
  congr 1
  funext index
  simp only [Function.comp_apply]
  omega

include absent in
theorem headLine?_append_left (lines : List Text) :
    headLine? name (before ++ lines) = (headLine? name lines).map (· + before.length) := by
  have none : before.findIdx? (declares name) = none := headLine?_eq_none_iff.mpr absent
  rw [headLine?, List.findIdx?_append, none]
  rfl

include absent in
/-- Lines in front that do not declare the block shift it. -/
theorem spanOf_append_left (lines : List Text) (span : Span) :
    spanOf name (before ++ lines) counting = .ok span ↔
      ∃ own, spanOf name lines counting = .ok own ∧ span = own.shift before.length := by
  constructor
  · intro located
    obtain ⟨headed, opened, closed⟩ := spanOf_eq_ok_iff.mp located
    rw [headLine?_append_left absent] at headed
    obtain ⟨head, headFound, headEquality⟩ := Option.map_eq_some_iff.mp headed
    rw [← headEquality, openingLine?_append_left] at opened
    obtain ⟨opening, openingFound, openingEquality⟩ := Option.map_eq_some_iff.mp opened
    rw [← openingEquality, closingLine?_append_left] at closed
    obtain ⟨closing, closingFound, closingEquality⟩ := Option.map_eq_some_iff.mp closed
    refine ⟨⟨head, opening, closing⟩,
      spanOf_eq_ok_iff.mpr ⟨headFound, openingFound, closingFound⟩, ?_⟩
    cases span
    simp only [Span.shift, Span.mk.injEq]
    exact ⟨headEquality.symm, openingEquality.symm, closingEquality.symm⟩
  · rintro ⟨own, located, rfl⟩
    obtain ⟨headed, opened, closed⟩ := spanOf_eq_ok_iff.mp located
    refine spanOf_eq_ok_iff.mpr ⟨?_, ?_, ?_⟩
    · rw [headLine?_append_left absent, headed]
      rfl
    · rw [Span.shift, openingLine?_append_left, opened]
      rfl
    · rw [Span.shift, closingLine?_append_left, closed]
      rfl

end Shift

section Bounds

variable {name : Text} {lines : List Text} {counting : Counting} {span : Span}
  (located : spanOf name lines counting = .ok span)

include located in
theorem spanOf_bounds :
    span.head ≤ span.opening ∧ span.opening ≤ span.closing ∧ span.closing < lines.length := by
  obtain ⟨-, opened, closed⟩ := spanOf_eq_ok_iff.mp located
  obtain ⟨openingOffset, -, openingEquality⟩ := Option.map_eq_some_iff.mp opened
  obtain ⟨closingOffset, found, closingEquality⟩ := Option.map_eq_some_iff.mp closed
  have bound := (linesToClose?_take found).1
  rw [List.length_drop] at bound
  omega

include located in
theorem undeclared_take_head : Undeclared name (lines.take span.head) := by
  have headed := (spanOf_eq_ok_iff.mp located).1
  rw [← headLine?_eq_none_iff, headLine?, List.findIdx?_take]
  unfold headLine? at headed
  rw [headed]
  simp

include located in
theorem declares_getElem_head (inside : span.head < lines.length) :
    declares name lines[span.head] = true :=
  (List.findIdx?_eq_some_iff_getElem.mp (spanOf_eq_ok_iff.mp located).1).2.1

include located in
/-- What follows the closing line does not matter. -/
theorem spanOf_append_right (after : List Text) :
    spanOf name (lines ++ after) counting = .ok span := by
  have bounds := spanOf_bounds located
  obtain ⟨headed, opened, closed⟩ := spanOf_eq_ok_iff.mp located
  refine spanOf_eq_ok_iff.mpr ⟨?_, ?_, ?_⟩
  · unfold headLine? at headed ⊢
    rw [List.findIdx?_append, headed]
    rfl
  · obtain ⟨offset, found, equality⟩ := Option.map_eq_some_iff.mp opened
    rw [openingLine?, List.drop_append_of_le_length (by omega), List.findIdx?_append, found]
    simpa using equality
  · obtain ⟨offset, found, equality⟩ := Option.map_eq_some_iff.mp closed
    rw [closingLine?, List.drop_append_of_le_length (by omega), linesToClose?_append found]
    simpa using equality

include located in
theorem spanOf_take : spanOf name (lines.take (span.closing + 1)) counting = .ok span := by
  have bounds := spanOf_bounds located
  obtain ⟨headed, opened, closed⟩ := spanOf_eq_ok_iff.mp located
  refine spanOf_eq_ok_iff.mpr ⟨?_, ?_, ?_⟩
  · unfold headLine? at headed ⊢
    have within : span.head < span.closing + 1 := by omega
    rw [List.findIdx?_take, headed, Option.bind_some]
    exact Option.guard_pos (decide_eq_true within)
  · obtain ⟨offset, found, equality⟩ := Option.map_eq_some_iff.mp opened
    have within : offset < span.closing + 1 - span.head := by omega
    rw [openingLine?, List.drop_take, List.findIdx?_take, found, Option.bind_some,
      Option.map_eq_some_iff]
    exact ⟨offset, Option.guard_pos (decide_eq_true within), equality⟩
  · obtain ⟨offset, found, equality⟩ := Option.map_eq_some_iff.mp closed
    have count : span.closing + 1 - span.opening = offset + 1 := by omega
    rw [closingLine?, List.drop_take, count, (linesToClose?_take found).2]
    simpa using equality

include located in
theorem take_closing_eq :
    lines.take (span.closing + 1) = lines.take span.head ++ span.extract lines := by
  have bounds := spanOf_bounds located
  have head : lines.take span.head = (lines.take (span.closing + 1)).take span.head := by
    rw [List.take_take, Nat.min_eq_left (by omega)]
  rw [head, Span.extract, List.take_append_drop]

include located in
theorem take_append_extract_append_drop :
    lines = lines.take span.head ++ (span.extract lines ++ lines.drop (span.closing + 1)) := by
  rw [← List.append_assoc, ← take_closing_eq located, List.take_append_drop]

include located in
theorem length_take_head : (lines.take span.head).length = span.head := by
  have bounds := spanOf_bounds located
  rw [List.length_take]
  omega

include located in
theorem length_extract : (span.extract lines).length = span.size := by
  have bounds := spanOf_bounds located
  rw [Span.extract, List.length_drop, List.length_take, Span.size]
  omega

include located in
theorem isExtent_extract :
    IsExtent name counting (span.extract lines) (span.opening - span.head) := by
  have bounds := spanOf_bounds located
  have taken := spanOf_take located
  rw [take_closing_eq located, spanOf_append_left (undeclared_take_head located),
    length_take_head located] at taken
  rcases taken with ⟨own, ownLocated, equality⟩
  have parts : own = ⟨0, span.opening - span.head, span.closing - span.head⟩ := by
    cases own
    cases span
    simp only [Span.shift, Span.mk.injEq] at equality ⊢
    omega
  rw [IsExtent, ownLocated, parts, length_extract located, Span.size]
  congr 2
  omega

end Bounds

section Neighbours

variable {name : Text} {lines : List Text} {counting : Counting} {span : Span}
  (located : spanOf name lines counting = .ok span)

include located in
theorem spanOf_take_append {count : Nat} (earlier : span.closing < count) (after : List Text) :
    spanOf name (lines.take count ++ after) counting = .ok span := by
  have longer : lines.take (span.closing + 1) <+: lines.take count :=
    List.take_prefix_take_left (by omega)
  rcases longer with ⟨more, equality⟩
  rw [← equality, List.append_assoc]
  exact spanOf_append_right (spanOf_take located) _

include located in
theorem spanOf_drop {count : Nat} (later : count ≤ span.head) :
    ∃ own, spanOf name (lines.drop count) counting = .ok own ∧ span = own.shift count := by
  have bounds := spanOf_bounds located
  have absent : Undeclared name (lines.take count) := by
    intro line membership
    exact undeclared_take_head located line
      ((List.take_subset_take_left lines later) membership)
  have whole := located
  rw [← List.take_append_drop count lines, spanOf_append_left absent, List.length_take,
    Nat.min_eq_left (by omega)] at whole
  exact whole

theorem extract_take_append {count : Nat} (within : span.closing < count)
    (bound : count ≤ lines.length) (after : List Text) :
    span.extract (lines.take count ++ after) = span.extract lines := by
  rw [Span.extract, List.take_append_of_le_length (by rw [List.length_take]; omega),
    List.take_take, Nat.min_eq_left (by omega), Span.extract]

theorem extract_shift (span : Span) {count : Nat} {before : List Text}
    (length : before.length = count) (lines : List Text) :
    (span.shift count).extract (before ++ lines) = span.extract lines := by
  subst length
  have closing : span.closing + before.length + 1 = before.length + (span.closing + 1) := by omega
  have head : span.head + before.length = before.length + span.head := by omega
  simp only [Span.extract, Span.shift]
  rw [closing, head, List.take_length_add_append, List.drop_length_add_append]

include located in
/-- A block that begins after some lines is found again, with the same lines, when others that do
not declare it stand in their place. -/
theorem spanOf_append_drop {count : Nat} (later : count ≤ span.head) {front : List Text}
    (absent : Undeclared name front) :
    ∃ own : Span, span = own.shift count ∧
      spanOf name (front ++ lines.drop count) counting = .ok (own.shift front.length) ∧
      (own.shift front.length).extract (front ++ lines.drop count) = span.extract lines := by
  have bounds := spanOf_bounds located
  obtain ⟨own, ownLocated, rfl⟩ := spanOf_drop located later
  refine ⟨own, rfl, (spanOf_append_left absent _ _).mpr ⟨own, ownLocated, rfl⟩, ?_⟩
  have length : (lines.take count).length = count := by
    rw [List.length_take]
    omega
  have whole := extract_shift own length (lines.drop count)
  rw [List.take_append_drop] at whole
  rw [extract_shift own rfl, whole]

end Neighbours

theorem IsExtent.exists_header {name : Text} {counting : Counting} {body : List Text}
    {opening : Nat} (extent : IsExtent name counting body opening) :
    ∃ header rest, body = header :: rest ∧ declares name header = true := by
  have headed := (spanOf_eq_ok_iff.mp extent).1
  obtain ⟨nonempty, declared, -⟩ := List.findIdx?_eq_some_iff_getElem.mp headed
  cases body with
  | nil => simp at nonempty
  | cons header rest => exact ⟨header, rest, rfl, declared⟩

theorem IsExtent.spanOf_surrounded {name : Text} {counting : Counting} {body : List Text}
    {opening : Nat} (extent : IsExtent name counting body opening) {before : List Text}
    (absent : Undeclared name before) (after : List Text) :
    spanOf name (before ++ (body ++ after)) counting =
      .ok ⟨before.length, before.length + opening, before.length + (body.length - 1)⟩ := by
  rw [spanOf_append_left absent]
  refine ⟨_, spanOf_append_right extent after, ?_⟩
  simp only [Span.shift, Span.mk.injEq]
  omega

end EnumBlocks
