import EnumBlocks.Proofs.Layout

/-!
Where the locator and the reader agree. The one takes the first declaration of a name and counts
braces from there, the other takes the last and keeps a stack of open blocks. What is read of a
block that is not declared again is nevertheless what its own lines say, unless a line among them
hides a brace from the reader: then the block can stay open and take further entries from the lines
after it.
-/

namespace EnumBlocks

theorem findRev?_append (first second : List Block) (test : Block → Bool) :
    (first ++ second).findRev? test = (second.findRev? test).or (first.findRev? test) := by
  simp only [List.findRev?_eq_find?_reverse, List.reverse_append, List.find?_append]

theorem findRev?_cons (block : Block) (rest : List Block) (test : Block → Bool) :
    (block :: rest).findRev? test =
      (rest.findRev? test).or (if test block then some block else none) := by
  rw [← List.singleton_append, findRev?_append]
  congr 1

theorem findRev?_name_eq_none_iff {blocks : List Block} {name : Text} :
    blocks.findRev? (·.name == name) = none ↔ name ∉ blocks.map Block.name := by
  rw [List.findRev?_eq_find?_reverse, List.find?_eq_none]
  simp

theorem extendBlocks_cons (added : Nat → List Entry) (block : Block) (rest : List Block) :
    extendBlocks added (block :: rest) =
      block.append (added 0) :: extendBlocks (fun place => added (place + 1)) rest :=
  List.mapIdx_cons

@[simp]
theorem names_extendBlocks (added : Nat → List Entry) (blocks : List Block) :
    (extendBlocks added blocks).map Block.name = blocks.map Block.name := by
  induction blocks generalizing added with
  | nil => rfl
  | cons block rest inductionHypothesis =>
      rw [extendBlocks_cons, List.map_cons, List.map_cons, inductionHypothesis]
      rfl

theorem findRev?_extendBlocks {blocks : List Block} {name : Text} {block : Block}
    (found : blocks.findRev? (·.name == name) = some block) :
    ∃ place, blocks[place]? = some block ∧ ∀ added : Nat → List Entry,
      (extendBlocks added blocks).findRev? (·.name == name) =
        some (block.append (added place)) := by
  induction blocks with
  | nil => contradiction
  | cons first rest inductionHypothesis =>
      rw [findRev?_cons] at found
      cases later : rest.findRev? (·.name == name) with
      | some last =>
          rw [later, Option.some_or, Option.some.injEq] at found
          subst found
          obtain ⟨place, present, extended⟩ := inductionHypothesis later
          refine ⟨place + 1, present, fun added => ?_⟩
          rw [extendBlocks_cons, findRev?_cons, extended, Option.some_or]
      | none =>
          rw [later, Option.none_or, Option.ite_none_right_eq_some, Option.some.injEq] at found
          rcases found with ⟨named, rfl⟩
          refine ⟨0, rfl, fun added => ?_⟩
          have absent := findRev?_name_eq_none_iff.mp later
          rw [← names_extendBlocks fun place => added (place + 1)] at absent
          rw [extendBlocks_cons, findRev?_cons, findRev?_name_eq_none_iff.mpr absent,
            Option.none_or]
          exact if_pos named

theorem find?_ofLines (lines : List Text) (name : Text) :
    (Outline.ofLines lines).find? name = (declaredIn lines).findRev? (·.name == name) :=
  find?_ofBlocks _ _

theorem find?_ofLines_of_declaredIn {lines : List Text} {front back : List Block} {block : Block}
    (split : declaredIn lines = front ++ block :: back) :
    (Outline.ofLines lines).find? block.name =
      some ((back.findRev? (·.name == block.name)).getD block) := by
  rw [find?_ofLines, split, findRev?_append, findRev?_cons, beq_self_eq_true, if_pos rfl]
  cases back.findRev? (·.name == block.name) <;> rfl

/-- Whether the reader leaves a block of a name open at the end of some lines. -/
def LeavesOpen (name : Text) (lines : List Text) : Prop :=
  ∃ scope ∈ (Reading.ofLines lines).scopes, scope.name = name

/-- In the middle of a document, a block that is not declared after its part has the entries that the
part alone gives it, and those that it takes while it is left open. -/
theorem find?_ofLines_append {name : Text} (before : List Text) {body after : List Text}
    (absent : name ∉ declaredNames after) {own : Block}
    (found : (Outline.ofLines body).find? name = some own) :
    ∃ more, (Outline.ofLines (before ++ body ++ after)).find? name = some (own.append more) ∧
      (¬ LeavesOpen name body → more = []) := by
  obtain ⟨earlier, -, declaredFirst⟩ := (follows_ofLines before body).declared
  obtain ⟨outer, suffixed, scopes⟩ := (follows_ofLines before body).scopes
  obtain ⟨added, adds, declared⟩ := (follows_ofLines (before ++ body) after).declared
  have ownName := (Outline.find?_eq_some_iff.mp found).2
  rw [find?_ofLines] at found
  obtain ⟨place, present, extended⟩ := findRev?_extendBlocks found
  have none : (declaredIn after).findRev? (·.name == name) = none := by
    rw [findRev?_name_eq_none_iff, names_declaredIn]
    exact absent
  have whole : declaredIn (before ++ body ++ after) =
      extendBlocks added (extendBlocks earlier (declaredIn before)) ++
        extendBlocks (fun place => added (place + (declaredIn before).length)) (declaredIn body) ++
          declaredIn after := by
    rw [declaredIn, declared, declaredFirst, extendBlocks_append, length_extendBlocks]
    rfl
  refine ⟨added (place + (declaredIn before).length), ?_, ?_⟩
  · rw [find?_ofLines, whole, findRev?_append, findRev?_append, none, extended]
    rfl
  · intro closed
    apply adds
    intro scope opened same
    rw [scopes, List.mem_append, List.mem_map] at opened
    rcases opened with ⟨inner, inside, rfl⟩ | outside
    · obtain ⟨block, atPlace, named⟩ := Reading.grounded_ofLines body inner inside
      have samePlace : inner.place = place := by
        simp only [Reading.shiftScope, declaredIn] at same
        omega
      rw [samePlace, ← declaredIn, present, Option.some.injEq] at atPlace
      subst atPlace
      exact closed ⟨inner, inside, named.symm.trans ownName⟩
    · have earlierPlace := (Reading.grounded_ofLines before).place_lt (suffixed.subset outside)
      simp only [declaredIn] at same
      omega

def declaredTwice : List Text :=
  [['e', 'n', 'u', 'm', ' ', 'A', '{', 'X', '}'], ['e', 'n', 'u', 'm', ' ', 'A', '{', 'Y', '}']]

def closedByAnother : List Text :=
  [['e', 'n', 'u', 'm', ' ', 'A', '{'], ['e', 'n', 'u', 'm', ' ', 'B'], ['}'],
   ['c', 'l', 'a', 's', 's', ' ', 'C', ' ', '{'], ['W'], ['}']]

/-- A block whose closing brace stands in a directive. -/
def closedByDirective : List Text :=
  [['e', 'n', 'u', 'm', ' ', 'A', '{'], ['X'], ['u', 's', 'i', 'n', 'g', ' ', '}', ';'], ['Y'],
   ['}']]

/-- The locator and the reader differ on a block that is declared again, and on one that is left
open. -/
theorem find?_ofLines_ne_of_located :
    (∃ span : Span, spanOf ['A'] declaredTwice .perCharacter = .ok span ∧
      (Outline.ofLines declaredTwice).find? ['A'] = some ⟨['A'], [⟨['Y'], [], []⟩]⟩ ∧
      (Outline.ofLines (span.extract declaredTwice)).find? ['A'] =
        some ⟨['A'], [⟨['X'], [], []⟩]⟩) ∧
    (∃ span : Span, spanOf ['A'] closedByAnother .perCharacter = .ok span ∧
      (Outline.ofLines closedByAnother).find? ['A'] = some ⟨['A'], [⟨['W'], [], []⟩]⟩ ∧
      (Outline.ofLines (span.extract closedByAnother)).find? ['A'] = some ⟨['A'], []⟩) ∧
    ∃ span : Span, spanOf ['A'] closedByDirective .perCharacter = .ok span ∧
      (Outline.ofLines closedByDirective).find? ['A'] =
        some ⟨['A'], [⟨['X'], [], []⟩, ⟨['Y'], [], []⟩]⟩ ∧
      (Outline.ofLines (span.extract closedByDirective)).find? ['A'] =
        some ⟨['A'], [⟨['X'], [], []⟩]⟩ :=
  ⟨⟨⟨0, 0, 0⟩, by decide, by decide, by decide⟩, ⟨⟨0, 0, 2⟩, by decide, by decide, by decide⟩,
    ⟨⟨0, 0, 2⟩, by decide, by decide, by decide⟩⟩

/-- What is read of a located block that is not declared again is what its own lines say, and what it
takes from the lines after them if these leave it open. Only a declaration or a directive among its
lines can bring that about. -/
theorem find?_ofLines_of_located {name : Text} {lines : List Text} {span : Span}
    (named : IsName name) (located : spanOf name lines .perCharacter = .ok span)
    (last : Undeclared name (lines.drop (span.closing + 1))) :
    ∃ own more,
      (Outline.ofLines (span.extract lines)).find? name = some own ∧
      (Outline.ofLines lines).find? name = some (own.append more) ∧
      (¬ LeavesOpen name (span.extract lines) → more = []) ∧
      ((∀ line ∈ (span.extract lines).tail, Declaration.ofLine? line = none) →
        (∀ line ∈ span.extract lines,
          isDirective (Text.strip line) = true → Braceless (codeOf line)) →
        ¬ LeavesOpen name (span.extract lines)) := by
  have extent := isExtent_extract located
  obtain ⟨header, rest, shape, declared⟩ := extent.exists_header
  have present : name ∈ (Outline.ofLines (span.extract lines)).names := by
    by_contra absent
    rw [mem_names_ofLines, ← undeclared_iff named] at absent
    rw [absent header (by rw [shape]; exact List.mem_cons_self)] at declared
    contradiction
  obtain ⟨own, found⟩ := Outline.mem_names_iff.mp present
  obtain ⟨more, whole, closed⟩ :=
    find?_ofLines_append (lines.take span.head) ((undeclared_iff named).mp last) found
  rw [List.append_assoc, ← take_append_extract_append_drop located] at whole
  refine ⟨own, more, found, whole, closed, ?_⟩
  rintro alone bracelessDirectives ⟨scope, opened, -⟩
  have settled := settled_of_isExtent extent named alone bracelessDirectives
  rw [settled] at opened
  contradiction

def insideClass : List Text :=
  [['c', 'l', 'a', 's', 's', ' ', 'C', ' ', '{'], ['e', 'n', 'u', 'm', ' ', 'A', '{'], ['X'], ['}'],
   ['}']]

theorem find?_ofLines_of_located_insideClass :
    ∃ own,
      (Outline.ofLines (Span.extract ⟨1, 1, 3⟩ insideClass)).find? ['A'] = some own ∧
      (Outline.ofLines insideClass).find? ['A'] = some own := by
  have located : spanOf ['A'] insideClass .perCharacter = .ok ⟨1, 1, 3⟩ := rfl
  have last : Undeclared ['A'] (insideClass.drop 4) := by
    unfold Undeclared
    decide
  obtain ⟨own, more, found, whole, closed, settled⟩ :=
    find?_ofLines_of_located (by decide) located last
  have nothing : more = [] := by
    apply closed
    apply settled
    · decide
    · decide
  rw [nothing, Block.append, List.append_nil] at whole
  exact ⟨own, found, whole⟩

end EnumBlocks
