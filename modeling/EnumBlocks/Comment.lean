import EnumBlocks.Text.Basic

/-!
The comment at the end of a line. It begins with two slashes outside quotation marks. A quotation
mark right after a backslash does not count as one.
-/

namespace EnumBlocks

/-- Split a line at its comment. `quoted` says whether the line so far leaves a quotation open,
`escaped` whether its last character is a backslash. -/
def splitCommentFrom (quoted escaped : Bool) : Text → Text × Option Text
  | [] => ([], none)
  | c :: rest =>
      if c = quotationMark ∧ escaped = false then
        let (code, comment) := splitCommentFrom (!quoted) false rest
        (c :: code, comment)
      else if c = '/' ∧ quoted = false ∧ rest.head? = some '/' then
        ([], some (rest.drop 1))
      else
        let (code, comment) := splitCommentFrom quoted (c == '\\') rest
        (c :: code, comment)

def splitComment (line : Text) : Text × Option Text :=
  splitCommentFrom false false line

def joinComment : Text × Option Text → Text
  | (code, none) => code
  | (code, some comment) => code ++ '/' :: '/' :: comment

theorem joinComment_cons (c : Char) (parts : Text × Option Text) :
    joinComment (c :: parts.1, parts.2) = c :: joinComment parts := by
  rcases parts with ⟨code, _ | comment⟩ <;> rfl

theorem joinComment_splitCommentFrom (quoted escaped : Bool) (line : Text) :
    joinComment (splitCommentFrom quoted escaped line) = line := by
  induction line generalizing quoted escaped with
  | nil => rfl
  | cons c rest inductionHypothesis =>
      simp only [splitCommentFrom]
      split
      · rw [joinComment_cons, inductionHypothesis]
      · split
        · rename_i slash
          obtain ⟨rfl, -, second⟩ := slash
          cases rest with
          | nil => simp at second
          | cons next others =>
              simp only [List.head?_cons, Option.some.injEq] at second
              subst second
              rfl
        · rw [joinComment_cons, inductionHypothesis]

/-- Splitting a line at its comment loses nothing but the two slashes. -/
theorem joinComment_splitComment (line : Text) : joinComment (splitComment line) = line :=
  joinComment_splitCommentFrom false false line

def codeOf (line : Text) : Text :=
  (splitComment line).1

def commentStart? (line : Text) : Option Nat :=
  (splitComment line).2.map fun _ => (codeOf line).length

end EnumBlocks
