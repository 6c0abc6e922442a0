import EnumBlocks.Text.Basic

/-!
Lines filled with words: a word goes to the line before it as long as it fits there.
-/

namespace EnumBlocks.Text

/-- Fill lines with words, the first of them behind those that are on `line`. -/
def fillFrom (width : Nat) (line : Text) : List Text → List Text
  | [] => [line]
  | word :: rest =>
      if line.length + 1 + word.length ≤ width then fillFrom width (line ++ ' ' :: word) rest
      else line :: fillFrom width word rest

/-- Fill lines of at most `width` characters with words, one space between neighbours. A longer word
has a line of its own. -/
def fill (width : Nat) : List Text → List Text
  | [] => []
  | word :: rest => fillFrom width word rest

theorem fillFrom_ne_nil (width : Nat) (line : Text) (words : List Text) :
    fillFrom width line words ≠ [] := by
  fun_induction fillFrom width line words <;> simp_all

/-- Filling lines moves no word: joined by spaces, the lines are the words joined by spaces. -/
theorem joinWith_fillFrom (width : Nat) (line : Text) (words : List Text) :
    joinWith [' '] (fillFrom width line words) = joinWith [' '] (line :: words) := by
  induction words generalizing line with
  | nil => rfl
  | cons word rest inductionHypothesis =>
      simp only [fillFrom]
      split
      · rw [inductionHypothesis]
        cases rest <;> simp [joinWith]
      · cases found : fillFrom width word rest with
        | nil => exact absurd found (fillFrom_ne_nil width word rest)
        | cons first others =>
            rw [joinWith_cons_cons, ← found, inductionHypothesis, ← joinWith_cons_cons]

end EnumBlocks.Text
