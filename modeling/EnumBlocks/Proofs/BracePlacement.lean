import EnumBlocks.Proofs.Agreement
import EnumBlocks.Proofs.Heading

/-!
Whether it matters where the opening brace of a block stands, behind the declaration or on the next
line. Entries on the line of the brace are taken where it stands behind the declaration, and are
passed over where it begins a line. Nothing else differs, whatever comes before and after.
-/

namespace EnumBlocks

theorem parse?_brace_cons (rest : Text) : Entry.parse? ('{' :: rest) = none := by
  rw [Entry.parse?, Text.strip_cons (by decide)]
  rfl

theorem lineEntries_brace_cons (rest : Text) : lineEntries ('{' :: rest) = [] := by
  have unread : (listPieces (codeOf ('{' :: rest))).mapM Entry.parse? = none := by
    obtain ⟨piece, others, shape⟩ : ∃ piece others,
        listPieces (codeOf ('{' :: rest)) = ('{' :: piece) :: others := by
      rw [codeOf_brace_cons, listPieces, Text.pieces, if_neg (by decide)]
      cases Text.pieces ',' (codeOf rest) with
      | nil => exact ⟨[], [], by decide⟩
      | cons first others =>
          rw [Text.consFirst, List.map_cons, Text.strip_cons (by decide),
            List.filter_cons_of_pos (by simp)]
          exact ⟨_, _, rfl⟩
    rw [shape, List.mapM_cons, parse?_brace_cons]
    rfl
  rw [lineEntries, parse?_brace_cons, unread]
  simp

theorem added_classify_brace_cons (rest : Text) (depth bodyDepth : Int) :
    (BodyLine.classify ('{' :: rest) depth bodyDepth).added = [] := by
  have stripped := Text.strip_cons (c := '{') (by decide) rest
  have before : Text.strip (Text.beforeFirst '}' (codeOf ('{' :: Text.stripEnd rest))) =
      '{' :: Text.stripEnd (Text.beforeFirst '}' (codeOf (Text.stripEnd rest))) := by
    rw [codeOf_brace_cons, Text.beforeFirst, List.takeWhile_cons_of_pos (by decide),
      Text.strip_cons (by decide)]
    rfl
  rw [BodyLine.classify, stripped, before, lineEntries_brace_cons]
  split
  · split
    · simp [BodyLine.added, lineEntries_brace_cons]
    · rfl
  · split <;> rfl

theorem ofLine?_brace_cons (rest : Text) : Declaration.ofLine? ('{' :: rest) = none := by
  have blank : Text.isBlankText [] = true := rfl
  exact ofLine?_indent_cons blank (by decide) (by decide) (by decide) rest

theorem isDirective_brace_cons (rest : Text) : isDirective (Text.strip ('{' :: rest)) = false := by
  rw [Text.strip_cons (by decide)]
  rfl

def Block.prepend (block : Block) (entries : List Entry) : Block :=
  { block with entries := entries ++ block.entries }

theorem modify_append_modify_prepend (blocks : List Block) (entries added : List Entry)
    (place other : Nat) :
    (blocks.modify place (·.prepend entries)).modify other (·.append added) =
      (blocks.modify other (·.append added)).modify place (·.prepend entries) := by
  apply List.ext_getElem?
  intro index
  simp only [List.getElem?_modify]
  cases blocks[index]? with
  | none => rfl
  | some block => by_cases first : place = index <;> by_cases second : other = index <;>
      simp [first, second, Block.append, Block.prepend]

namespace Reading

/-- Whether two readings differ in nothing but entries that the first has more, at the start of the
declaration at a place. What was reported is not compared. -/
structure AheadBy (entries : List Entry) (place : Nat) (reading other : Reading) : Prop where
  depth : reading.depth = other.depth
  declared : reading.declared = other.declared.modify place (·.prepend entries)
  scopes : reading.scopes = other.scopes
  within : place < other.declared.length

namespace AheadBy

variable {entries : List Entry} {place : Nat} {reading other : Reading}
  (ahead : reading.AheadBy entries place other)

include ahead in
theorem declare (number otherNumber : Nat) (line name : Text) :
    (reading.declare number line name).AheadBy entries place
      (other.declare otherNumber line name) := by
  obtain ⟨depth, declared, scopes, within⟩ := ahead
  refine ⟨?_, ?_, ?_, ?_⟩
  · simp only [Reading.declare, depth]
  · simp only [Reading.declare, declared]
    rw [modify_append_left _ _ within]
  · simp only [Reading.declare, declared, depth, scopes, List.length_modify]
  · simp only [Reading.declare, List.length_append]
    omega

include ahead in
theorem continueBody (number otherNumber : Nat) (line : Text) :
    (reading.continueBody number line).AheadBy entries place
      (other.continueBody otherNumber line) := by
  cases opened : other.scopes with
  | nil =>
      rw [continueBody_of_scopes_eq_nil other _ _ opened,
        continueBody_of_scopes_eq_nil reading _ _ (ahead.scopes.trans opened)]
      exact ahead
  | cons scope outer =>
      have effect := continueBody_of_scopes_eq_cons otherNumber line opened
      have ownEffect :=
        continueBody_of_scopes_eq_cons number line (ahead.scopes.trans opened)
      rw [ahead.depth] at ownEffect
      refine ⟨?_, ?_, ?_, ?_⟩
      · rw [ownEffect.1, effect.1]
      · rw [ownEffect.2.1, effect.2.1, ahead.declared, modify_append_modify_prepend]
      · rw [ownEffect.2.2, effect.2.2]
      · rw [effect.2.1, List.length_modify]
        exact ahead.within

include ahead in
theorem step (number otherNumber : Nat) (line : Text) :
    (reading.step number line).AheadBy entries place (other.step otherNumber line) := by
  unfold Reading.step
  split
  · exact ahead
  · unfold Reading.takeLine
    split
    · exact ahead.declare _ _ _ _
    · apply AheadBy.continueBody
      exact ⟨congrArg (· + netBraces (Text.strip line)) ahead.depth, ahead.declared, ahead.scopes,
        ahead.within⟩

include ahead in
theorem run (number otherNumber : Nat) (lines : List Text) :
    (reading.run number lines).AheadBy entries place (other.run otherNumber lines) := by
  induction lines generalizing reading other number otherNumber with
  | nil => exact ahead
  | cons line rest inductionHypothesis =>
      exact inductionHypothesis (ahead.step number otherNumber line) _ _

end AheadBy

theorem declared_continueBody_brace_cons (rest : Text) (reading : Reading) (number : Nat) :
    (reading.continueBody number ('{' :: rest)).declared = reading.declared := by
  cases opened : reading.scopes with
  | nil => rw [continueBody_of_scopes_eq_nil _ _ _ opened]
  | cons scope outer =>
      have same : (Block.append · []) = id := by
        funext block
        simp [Block.append]
      rw [(continueBody_of_scopes_eq_cons number _ opened).2.1, added_classify_brace_cons, same,
        List.modify_id]

theorem declared_step_brace_cons (rest : Text) (reading : Reading) (number : Nat) :
    (reading.step number ('{' :: rest)).declared = reading.declared := by
  rw [step, if_neg (by simp [isDirective_brace_cons]), takeLine, ofLine?_brace_cons]
  exact declared_continueBody_brace_cons rest _ number

theorem ofLines_append_cons (before after : List Text) (line : Text) :
    ofLines (before ++ line :: after) =
      ((ofLines before).step (1 + before.length) line).run (1 + before.length + 1) after :=
  run_append {} 1 before (line :: after)

end Reading

def braceBehind (header rest : Text) (before after : List Text) : List Text :=
  before ++ (header ++ ' ' :: '{' :: rest) :: after

def braceBelow (header rest : Text) (before after : List Text) : List Text :=
  before ++ header :: ('{' :: rest) :: after

section Placement

variable {name header : Text} (heading : IsHeading name header)

include heading in
/-- The two lines of a declaration and its brace come to the same as the one line, but for the
entries behind the brace. -/
theorem Reading.aheadBy_step_step (rest : Text) (reading : Reading) (number otherNumber : Nat) :
    (reading.step number (header ++ ' ' :: '{' :: rest)).AheadBy
      (braceEntries (Text.strip ('{' :: rest))) reading.declared.length
      ((reading.step otherNumber header).step (otherNumber + 1) ('{' :: rest)) := by
  have opens := openCount_brace_cons rest
  have counts : netBraces ('{' :: rest) = openCount ('{' :: rest) - closeCount ('{' :: rest) := rfl
  obtain ⟨depth, declared, scopes⟩ := step_heading_brace heading reading number rest
  obtain ⟨headDepth, headDeclared, headScopes⟩ := step_heading heading reading otherNumber
  have below := step_of_scopes_eq_cons headScopes (otherNumber + 1) (ofLine?_brace_cons rest)
    fun directive => by
      rw [isDirective_brace_cons] at directive
      contradiction
  have belowDeclared := declared_step_brace_cons rest (reading.step otherNumber header)
    (otherNumber + 1)
  rw [headDeclared] at belowDeclared
  refine ⟨?_, ?_, ?_, ?_⟩
  · rw [depth, below.1, headDepth]
  · have last := modify_append_right reading.declared [⟨name, []⟩] 0
      (·.prepend (braceEntries (Text.strip ('{' :: rest))))
    rw [Nat.add_zero] at last
    rw [declared, belowDeclared, last, List.modify_zero_cons, Block.prepend, List.append_nil]
  · have closes : netBraces ('{' :: rest) ≤ 0 ↔
        reading.depth + netBraces ('{' :: rest) ≤ reading.depth ∧ 0 < closeCount ('{' :: rest) := by
      omega
    rw [scopes, below.2, headDepth]
    simp only [closes]
  · rw [belowDeclared, List.length_append]
    exact Nat.lt_succ_self _

variable (rest : Text) (before after : List Text)

include heading in
/-- The declarations of a document are the same wherever the brace stands, but for the entries behind
the brace. -/
theorem exists_declaredIn_brace :
    ∃ front entries back,
      declaredIn (braceBelow header rest before after) = front ++ ⟨name, entries⟩ :: back ∧
      declaredIn (braceBehind header rest before after) =
        front ++ ⟨name, braceEntries (Text.strip ('{' :: rest)) ++ entries⟩ :: back ∧
      back.map Block.name = declaredNames after := by
  have ahead := (Reading.aheadBy_step_step heading rest (Reading.ofLines before)
    (1 + before.length) (1 + before.length)).run (1 + before.length + 1)
    (1 + before.length + 1 + 1) after
  have behind := Reading.ofLines_append_cons before after (header ++ ' ' :: '{' :: rest)
  have below := Reading.ofLines_append_cons before (('{' :: rest) :: after) header
  rw [Reading.run] at below
  rw [← behind, ← below] at ahead
  obtain ⟨front, ⟨own, entries⟩, back, shape, place, modified⟩ :=
    List.exists_of_modify (·.prepend (braceEntries (Text.strip ('{' :: rest)))) ahead.within
  obtain ⟨declaration, read, rfl⟩ := heading.exists_ofLine?
  have names := names_declaredIn (before ++ header :: ('{' :: rest) :: after)
  rw [declaredIn, shape, declaredNames_append, ← names_declaredIn before, List.map_append] at names
  obtain ⟨-, later⟩ := List.append_inj names (by rw [List.length_map, List.length_map, place]; rfl)
  simp only [declaredNames, List.filterMap_cons, read, ofLine?_brace_cons, List.map_cons,
    List.cons.injEq] at later
  obtain ⟨rfl, later⟩ := later
  exact ⟨front, entries, back, shape, ahead.declared.trans modified, later⟩

include heading in
theorem exists_find?_brace :
    ∃ entries,
      (Outline.ofLines (braceBelow header rest before after)).find? name = some ⟨name, entries⟩ ∧
      (Outline.ofLines (braceBehind header rest before after)).find? name =
        some ⟨name, if name ∈ declaredNames after then entries
          else braceEntries (Text.strip ('{' :: rest)) ++ entries⟩ := by
  obtain ⟨front, entries, back, below, behind, later⟩ :=
    exists_declaredIn_brace heading rest before after
  have belowFound := find?_ofLines_of_declaredIn below
  have behindFound := find?_ofLines_of_declaredIn behind
  cases last : back.findRev? (·.name == name) with
  | none =>
      simp only [last, Option.getD_none] at belowFound behindFound
      rw [findRev?_name_eq_none_iff, later] at last
      exact ⟨entries, belowFound, by rw [if_neg last, behindFound]⟩
  | some block =>
      simp only [last, Option.getD_some] at belowFound behindFound
      have again : name ∈ declaredNames after := by
        by_contra absent
        rw [← later, ← findRev?_name_eq_none_iff, last] at absent
        contradiction
      obtain ⟨own, found⟩ := block
      obtain rfl : own = name := (Outline.find?_eq_some_iff.mp belowFound).2
      exact ⟨found, belowFound, by rw [if_pos again, behindFound]⟩

include heading in
/-- What a document is read as when the brace of a block is moved from the line of the declaration to
the next: the names and the other blocks stay as they are, and the block itself loses the entries
that stand behind the brace on its line, unless its name is declared again. -/
theorem ofLines_braceBehind :
    (Outline.ofLines (braceBehind header rest before after)).names =
        (Outline.ofLines (braceBelow header rest before after)).names ∧
      (∀ other, other ≠ name →
        (Outline.ofLines (braceBehind header rest before after)).find? other =
          (Outline.ofLines (braceBelow header rest before after)).find? other) ∧
      (∃ entries,
        (Outline.ofLines (braceBelow header rest before after)).find? name =
          some ⟨name, entries⟩ ∧
        (Outline.ofLines (braceBehind header rest before after)).find? name =
          some ⟨name, if name ∈ declaredNames after then entries
            else braceEntries (Text.strip ('{' :: rest)) ++ entries⟩) ∧
      (Outline.ofLines (braceBehind header rest before after) =
          Outline.ofLines (braceBelow header rest before after) ↔
        braceEntries (Text.strip ('{' :: rest)) = [] ∨ name ∈ declaredNames after) := by
  obtain ⟨front, entries, back, below, behind, -⟩ :=
    exists_declaredIn_brace heading rest before after
  have names : (Outline.ofLines (braceBehind header rest before after)).names =
      (Outline.ofLines (braceBelow header rest before after)).names := by
    apply names_ofBlocks_congr
    rw [← declaredIn, ← declaredIn, below, behind]
    simp
  have others : ∀ other, other ≠ name →
      (Outline.ofLines (braceBehind header rest before after)).find? other =
        (Outline.ofLines (braceBelow header rest before after)).find? other := by
    intro other different
    simp only [find?_ofLines, below, behind, findRev?_append, findRev?_cons,
      beq_iff_eq, Ne.symm different, if_false]
  obtain ⟨own, belowOwn, behindOwn⟩ := exists_find?_brace heading rest before after
  refine ⟨names, others, ⟨own, belowOwn, behindOwn⟩, ?_, ?_⟩
  · intro same
    rw [same, belowOwn, Option.some.injEq, Block.mk.injEq] at behindOwn
    by_cases again : name ∈ declaredNames after
    · exact .inr again
    · rw [if_neg again] at behindOwn
      exact .inl (List.self_eq_append_left.mp behindOwn.2)
  · intro nothing
    refine Outline.ext_of_find? names fun other => ?_
    by_cases different : other = name
    · subst different
      rw [behindOwn, belowOwn]
      rcases nothing with empty | again
      · rw [empty, List.nil_append, ite_self]
      · rw [if_pos again]
    · exact others other different

end Placement

/-- An entry that is read where the brace in front of it stands behind the declaration is lost where
the brace stands below. -/
theorem ofLines_braceBehind_oneEntry :
    (Outline.ofLines (braceBehind ['e', 'n', 'u', 'm', ' ', 'A'] [' ', 'X', ' ', '}'] [] [])).find?
        ['A'] = some ⟨['A'], [⟨['X'], [], []⟩]⟩ ∧
      (Outline.ofLines (braceBelow ['e', 'n', 'u', 'm', ' ', 'A'] [' ', 'X', ' ', '}'] [] [])).find?
        ['A'] = some ⟨['A'], []⟩ ∧
      Outline.ofLines (braceBehind ['e', 'n', 'u', 'm', ' ', 'A'] [' ', 'X', ' ', '}'] [] []) ≠
        Outline.ofLines (braceBelow ['e', 'n', 'u', 'm', ' ', 'A'] [' ', 'X', ' ', '}'] [] []) := by
  have heading : IsHeading ['A'] ['e', 'n', 'u', 'm', ' ', 'A'] := by decide
  have lost : braceEntries (Text.strip ['{', ' ', 'X', ' ', '}']) = [⟨['X'], [], []⟩] := by decide
  obtain ⟨-, -, ⟨entries, below, behind⟩, same⟩ :=
    ofLines_braceBehind heading [' ', 'X', ' ', '}'] [] []
  have none : entries = [] := by
    have read : (Outline.ofLines
        (braceBelow ['e', 'n', 'u', 'm', ' ', 'A'] [' ', 'X', ' ', '}'] [] [])).find? ['A'] =
        some ⟨['A'], []⟩ := by decide
    rw [below, Option.some.injEq, Block.mk.injEq] at read
    exact read.2
  rw [none, lost] at behind
  rw [none] at below
  refine ⟨behind, below, fun equal => ?_⟩
  rcases same.mp equal with empty | again
  · exact absurd (lost.symm.trans empty) (List.cons_ne_nil _ _)
  · exact absurd again List.not_mem_nil

end EnumBlocks
