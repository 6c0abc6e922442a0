import EnumBlocks.Comment
import Mathlib.Algebra.Group.Nat.Even
import Mathlib.Data.List.Range

/-!
String literals and the comment of a line. In a literal a backslash escapes the character after it,
so that a backslash which is escaped itself leaves the mark behind it to close the literal. The
search for the comment looks at one character only: it passes over every mark right after a
backslash. The two agree exactly if every two slashes up to the comment have an even number of marks
in front of them that the search passes over and that do open or close a literal.
-/

namespace EnumBlocks

/-- Where a reader of string literals stands. -/
inductive LiteralState where
  | outside
  | inside
  /-- In a literal, behind a backslash that escapes the next character. -/
  | escaping
  deriving DecidableEq, Repr

namespace LiteralState

def next : LiteralState → Char → LiteralState
  | outside, c => if c = quotationMark then inside else outside
  | inside, c => if c = quotationMark then outside else if c = '\\' then escaping else inside
  | escaping, _ => inside

def behind (text : Text) : LiteralState :=
  text.foldl next outside

theorem behind_concat (text : Text) (c : Char) : behind (text ++ [c]) = (behind text).next c :=
  List.foldl_concat next outside c text

end LiteralState

def slashesAt (text : Text) (place : Nat) : Bool :=
  text[place]? == some '/' && text[place + 1]? == some '/'

/-- Where the first two slashes outside all string literals stand. -/
def slashesOutsideLiterals? (line : Text) : Option Nat :=
  (List.range line.length).find? fun place =>
    slashesAt line place && LiteralState.behind (line.take place) == .outside

/-- Whether the character at a place is a quotation mark right after a backslash that does not escape
it: the backslash is escaped itself, or stands outside all literals. -/
def isMisjudged (text : Text) (place : Nat) : Bool :=
  text[place]? == some quotationMark && (text.take place).getLast? == some '\\' &&
    LiteralState.behind (text.take place) != .escaping

def misjudgedCount (text : Text) : Nat :=
  (List.range text.length).countP (isMisjudged text)

/-- The search for a comment reads a character: whether a quotation is open behind it, and whether it
is a backslash. -/
def quotationStep (state : Bool × Bool) (c : Char) : Bool × Bool :=
  if c = quotationMark ∧ state.2 = false then (!state.1, false) else (state.1, c == '\\')

def quotationBehind (text : Text) : Bool × Bool :=
  text.foldl quotationStep (false, false)

theorem quotationBehind_concat (text : Text) (c : Char) :
    quotationBehind (text ++ [c]) = quotationStep (quotationBehind text) c :=
  List.foldl_concat quotationStep (false, false) c text

section Search

variable {quoted escaped : Bool} {c : Char} {rest : Text}

theorem slashesAt_zero_iff :
    slashesAt (c :: rest) 0 = true ↔ c = '/' ∧ rest.head? = some '/' := by
  rw [List.head?_eq_getElem?]
  simp [slashesAt]

theorem slashesAt_succ (place : Nat) :
    slashesAt (c :: rest) (place + 1) = slashesAt rest place := rfl

theorem lt_length_of_slashesAt {line : Text} {place : Nat}
    (slashes : slashesAt line place = true) : place < line.length := by
  rw [slashesAt, Bool.and_eq_true, beq_iff_eq] at slashes
  exact (List.getElem?_eq_some_iff.mp slashes.1).1

theorem splitCommentFrom_of_slashes (slashes : slashesAt (c :: rest) 0 = true) :
    splitCommentFrom false escaped (c :: rest) = ([], some (rest.drop 1)) := by
  obtain ⟨rfl, second⟩ := slashesAt_zero_iff.mp slashes
  have unmarked : ¬ ('/' = quotationMark ∧ escaped = false) := fun mark => by
    cases mark.1
  rw [splitCommentFrom, if_neg unmarked, if_pos ⟨rfl, rfl, second⟩]

theorem splitCommentFrom_of_not_slashes
    (going : ¬ (slashesAt (c :: rest) 0 = true ∧ quoted = false)) :
    splitCommentFrom quoted escaped (c :: rest) =
      let state := quotationStep (quoted, escaped) c
      (c :: (splitCommentFrom state.1 state.2 rest).1,
        (splitCommentFrom state.1 state.2 rest).2) := by
  have within : ¬ (c = '/' ∧ quoted = false ∧ rest.head? = some '/') := fun slashes =>
    going ⟨slashesAt_zero_iff.mpr ⟨slashes.1, slashes.2.2⟩, slashes.2.1⟩
  rw [splitCommentFrom, quotationStep]
  by_cases mark : c = quotationMark ∧ escaped = false
  · rw [if_pos mark, if_pos mark]
  · rw [if_neg mark, if_neg mark, if_neg within]

/-- The comment begins at the first two slashes in front of which no quotation is open. -/
theorem length_code_eq_find? (quoted escaped : Bool) (line : Text) :
    (splitCommentFrom quoted escaped line).2.map
        (fun _ => (splitCommentFrom quoted escaped line).1.length) =
      (List.range line.length).find? fun place =>
        slashesAt line place && !((line.take place).foldl quotationStep (quoted, escaped)).1 := by
  induction line generalizing quoted escaped with
  | nil => rfl
  | cons c rest inductionHypothesis =>
      rw [List.length_cons, List.range_succ_eq_map, List.find?_cons, List.find?_map]
      by_cases begins : slashesAt (c :: rest) 0 = true ∧ quoted = false
      · obtain ⟨slashes, rfl⟩ := begins
        rw [splitCommentFrom_of_slashes slashes]
        simp [slashes]
      · have later := inductionHypothesis (quotationStep (quoted, escaped) c).1
          (quotationStep (quoted, escaped) c).2
        have first : (slashesAt (c :: rest) 0 &&
            !(((c :: rest).take 0).foldl quotationStep (quoted, escaped)).1) = false := by
          simpa [Bool.and_eq_false_iff, ← Bool.not_eq_true, imp_iff_not_or] using begins
        rw [splitCommentFrom_of_not_slashes begins, first]
        simp only [Function.comp_def, Nat.succ_eq_add_one, slashesAt_succ, List.take_succ_cons,
          List.foldl_cons, ← later, Option.map_map, List.length_cons]

end Search

theorem commentStart?_eq_find? (line : Text) :
    commentStart? line = (List.range line.length).find? fun place =>
      slashesAt line place && !(quotationBehind (line.take place)).1 :=
  length_code_eq_find? false false line

section Marks

variable (text : Text) (c : Char)

theorem quotationBehind_snd : (quotationBehind text).2 = (text.getLast? == some '\\') := by
  induction text using List.reverseRecOn with
  | nil => rfl
  | append_singleton earlier c inductionHypothesis =>
      rw [quotationBehind_concat, quotationStep, List.getLast?_concat]
      by_cases mark : c = quotationMark ∧ (quotationBehind earlier).2 = false
      · rw [if_pos mark, mark.1]
        rfl
      · rw [if_neg mark]
        rfl

theorem getLast?_of_escaping (escaping : LiteralState.behind text = .escaping) :
    text.getLast? = some '\\' := by
  induction text using List.reverseRecOn with
  | nil => contradiction
  | append_singleton earlier c inductionHypothesis =>
      rw [LiteralState.behind_concat] at escaping
      rw [List.getLast?_concat]
      cases state : LiteralState.behind earlier with
      | outside =>
          rw [state, LiteralState.next] at escaping
          split at escaping <;> contradiction
      | inside =>
          rw [state, LiteralState.next] at escaping
          split at escaping
          · contradiction
          · split at escaping
            · rename_i backslash
              rw [backslash]
            · contradiction
      | escaping =>
          rw [state, LiteralState.next] at escaping
          contradiction

theorem misjudgedCount_concat :
    misjudgedCount (text ++ [c]) = misjudgedCount text +
      if c = quotationMark ∧ text.getLast? = some '\\' ∧ LiteralState.behind text ≠ .escaping
      then 1 else 0 := by
  have earlier : (List.range text.length).countP (isMisjudged (text ++ [c])) =
      misjudgedCount text := by
    apply List.countP_congr
    intro place membership
    have inside := List.mem_range.mp membership
    rw [isMisjudged, isMisjudged, List.getElem?_append_left inside,
      List.take_append_of_le_length (Nat.le_of_lt inside)]
  have last : isMisjudged (text ++ [c]) text.length = true ↔
      c = quotationMark ∧ text.getLast? = some '\\' ∧ LiteralState.behind text ≠ .escaping := by
    simp [isMisjudged, and_assoc]
  rw [misjudgedCount, List.length_append, List.length_singleton, List.range_succ,
    List.countP_append, earlier, List.countP_singleton]
  simp only [last]

/-- The search takes a text for unquoted where it is, unless it passed over an odd number of marks
that it should not have passed over. -/
theorem quotationBehind_fst_eq_false_iff :
    (quotationBehind text).1 = false ↔
      (LiteralState.behind text = .outside ↔ Even (misjudgedCount text)) := by
  induction text using List.reverseRecOn with
  | nil => simp [quotationBehind, LiteralState.behind, misjudgedCount]
  | append_singleton earlier c inductionHypothesis =>
      rw [quotationBehind_concat, quotationStep, quotationBehind_snd, misjudgedCount_concat,
        LiteralState.behind_concat]
      by_cases mark : c = quotationMark
      · subst mark
        by_cases backslash : earlier.getLast? = some '\\'
        · -- The search passes over the mark; so does the reader if it is escaped.
          cases state : LiteralState.behind earlier <;>
            simp [inductionHypothesis, state, backslash, LiteralState.next, Nat.even_add_one]
        · have opened : (!(quotationBehind earlier).1) = false ↔
              ¬ (LiteralState.behind earlier = .outside ↔ Even (misjudgedCount earlier)) := by
            rw [← inductionHypothesis, Bool.not_eq_false', Bool.not_eq_false]
          cases state : LiteralState.behind earlier with
          | escaping => exact absurd (getLast?_of_escaping earlier state) backslash
          | outside => simp [opened, state, backslash, LiteralState.next]
          | inside => simp [opened, state, backslash, LiteralState.next]
      · have unchanged : (LiteralState.behind earlier).next c = .outside ↔
            LiteralState.behind earlier = .outside := by
          cases LiteralState.behind earlier with
          | outside => simp [LiteralState.next, mark]
          | inside =>
              simp only [LiteralState.next, if_neg mark]
              split <;> decide
          | escaping => simp [LiteralState.next]
        simp [mark, inductionHypothesis, unchanged]

end Marks

theorem find?_range_eq_iff {first second : Nat → Bool} {count : Nat} :
    (List.range count).find? first = (List.range count).find? second ↔
      ∀ place < count, (∀ start ∈ (List.range count).find? second, place ≤ start) →
        first place = second place := by
  cases found : (List.range count).find? second with
  | none =>
      have fails := List.find?_range_eq_none.mp found
      rw [List.find?_range_eq_none]
      constructor
      · intro firstFails place within _
        exact Bool.not_inj ((firstFails place within).trans (fails place within).symm)
      · intro agree place within
        rw [agree place within fun start impossible => by contradiction]
        exact fails place within
  | some start =>
      obtain ⟨passes, inside, fails⟩ := List.find?_range_eq_some.mp found
      rw [List.find?_range_eq_some]
      constructor
      · rintro ⟨firstPasses, -, firstFails⟩ place within upTo
        rcases Nat.lt_or_eq_of_le (upTo start rfl) with before | rfl
        · exact Bool.not_inj ((firstFails place before).trans (fails place before).symm)
        · exact firstPasses.trans passes.symm
      · intro agree
        have upTo : ∀ place ≤ start, first place = second place := fun place before =>
          agree place (Nat.lt_of_le_of_lt before (List.mem_range.mp inside)) fun other same =>
            Option.some.inj same ▸ before
        refine ⟨(upTo start (Nat.le_refl start)).trans passes, inside, fun place before => ?_⟩
        rw [upTo place (Nat.le_of_lt before)]
        exact fails place before

/-- The search finds the comment where it begins exactly if every two slashes up to it have an even
number of misjudged marks in front of them. -/
theorem commentStart?_eq_slashesOutsideLiterals?_iff (line : Text) :
    commentStart? line = slashesOutsideLiterals? line ↔
      ∀ place, slashesAt line place = true →
        (∀ start ∈ slashesOutsideLiterals? line, place ≤ start) →
        Even (misjudgedCount (line.take place)) := by
  have same : ∀ place,
      ((slashesAt line place && !(quotationBehind (line.take place)).1) =
          (slashesAt line place && LiteralState.behind (line.take place) == .outside)) ↔
        (slashesAt line place = true → Even (misjudgedCount (line.take place))) := by
    intro place
    have judged := quotationBehind_fst_eq_false_iff (line.take place)
    cases slashesAt line place with
    | false => simp
    | true =>
        rw [Bool.true_and, Bool.true_and, Bool.eq_iff_iff, Bool.not_eq_true', judged, beq_iff_eq]
        by_cases outside : LiteralState.behind (line.take place) = .outside <;> simp [outside]
  rw [commentStart?_eq_find?, slashesOutsideLiterals?, find?_range_eq_iff]
  simp only [same]
  constructor
  · intro agree place slashes upTo
    exact agree place (lt_length_of_slashesAt slashes) upTo slashes
  · intro agree place _ upTo slashes
    exact agree place slashes upTo

/-- A literal that ends with an escaped backslash, and a comment with a brace. -/
def backslashLiteral : Text :=
  ['X', '=', quotationMark, '\\', '\\', quotationMark, '/', '/', '}']

/-- The literal is closed by the mark behind the backslashes; the search finds no end of it. -/
theorem commentStart?_ne_backslashLiteral :
    slashesOutsideLiterals? backslashLiteral = some 6 ∧
      commentStart? backslashLiteral = none ∧
      commentStart? backslashLiteral ≠ slashesOutsideLiterals? backslashLiteral := by
  have found : slashesOutsideLiterals? backslashLiteral = some 6 := by decide
  refine ⟨found, by decide, fun same => ?_⟩
  have even := (commentStart?_eq_slashesOutsideLiterals?_iff backslashLiteral).mp same 6 (by decide)
    fun start first => by
      rw [found] at first
      exact Nat.le_of_eq (Option.some.inj first)
  exact absurd even (by decide)

end EnumBlocks
