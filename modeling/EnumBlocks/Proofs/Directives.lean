import EnumBlocks.Proofs.Agreement

/-!
What passing over directives changes. A directive outside of all blocks can be read like any other
line and changes nothing, whatever braces it has. Inside a block it can be an entry that only looks
like a directive, which is then missing from the outline.
-/

namespace EnumBlocks

/-- Whether a place is the last at which a name stands among others. -/
def IsLastPlace (name : Text) (place : Nat) (names : List Text) : Prop :=
  names[place]? = some name ∧ name ∉ names.drop (place + 1)

theorem exists_isLastPlace {name : Text} {names : List Text} (membership : name ∈ names) :
    ∃ place, IsLastPlace name place names := by
  induction names with
  | nil => contradiction
  | cons first rest inductionHypothesis =>
      by_cases later : name ∈ rest
      · obtain ⟨place, last⟩ := inductionHypothesis later
        exact ⟨place + 1, last⟩
      · obtain rfl : name = first := (List.mem_cons.mp membership).resolve_right later
        exact ⟨0, rfl, later⟩

theorem findRev?_of_isLastPlace {blocks : List Block} {name : Text} {place : Nat}
    (last : IsLastPlace name place (blocks.map Block.name)) :
    blocks.findRev? (·.name == name) = blocks[place]? := by
  obtain ⟨stands, notLater⟩ := last
  rw [List.getElem?_map, Option.map_eq_some_iff] at stands
  obtain ⟨block, found, named⟩ := stands
  rw [← List.map_drop, ← findRev?_name_eq_none_iff] at notLater
  obtain ⟨within, equality⟩ := List.getElem?_eq_some_iff.mp found
  have parts : blocks = blocks.take place ++ block :: blocks.drop (place + 1) := by
    rw [← equality, List.getElem_cons_drop, List.take_append_drop]
  rw [found, parts, findRev?_append, findRev?_cons, notLater]
  simp [named]

theorem ofBlocks_eq_ofBlocks_iff {blocks others : List Block}
    (same : blocks.map Block.name = others.map Block.name) :
    Outline.ofBlocks blocks = Outline.ofBlocks others ↔
      ∀ place name, IsLastPlace name place (others.map Block.name) →
        blocks[place]? = others[place]? := by
  constructor
  · intro equal place name last
    rw [← findRev?_of_isLastPlace last, ← find?_ofBlocks, ← equal, find?_ofBlocks]
    rw [← same] at last
    rw [findRev?_of_isLastPlace last]
  · intro agree
    refine Outline.ext_of_find? (names_ofBlocks_congr same) fun name => ?_
    rw [find?_ofBlocks, find?_ofBlocks]
    by_cases present : name ∈ others.map Block.name
    · obtain ⟨place, last⟩ := exists_isLastPlace present
      rw [findRev?_of_isLastPlace last, ← agree place name last]
      rw [← same] at last
      rw [findRev?_of_isLastPlace last]
    · rw [findRev?_name_eq_none_iff.mpr present]
      rw [← same] at present
      rw [findRev?_name_eq_none_iff.mpr present]

structure EnclosedDirective where
  line : Text
  /-- The innermost block that is open at the line. -/
  scope : Scope
  /-- The depth of nesting at the line, which does not count its braces. -/
  depth : Int
  deriving DecidableEq, Repr

namespace EnclosedDirective

/-- What the line is when it is not passed over. -/
def bodyLine (directive : EnclosedDirective) : BodyLine :=
  BodyLine.classify directive.line directive.depth directive.scope.bodyDepth

/-- Whether the line leaves the nesting as it is: as many of its braces open as close, and it does
not close the block. -/
def IsLevel (directive : EnclosedDirective) : Prop :=
  netBraces (Text.strip directive.line) = 0 ∧ directive.bodyLine.isClosing = false

instance (directive : EnclosedDirective) : Decidable directive.IsLevel :=
  inferInstanceAs (Decidable (_ ∧ _))

end EnclosedDirective

namespace Reading

def enclosedDirective? (reading : Reading) (line : Text) : Option EnclosedDirective :=
  if isDirective (Text.strip line) then
    reading.scopes.head?.map fun scope => ⟨line, scope, reading.depth⟩
  else none

def enclosedDirectives (reading : Reading) (number : Nat) : List Text → List EnclosedDirective
  | [] => []
  | line :: rest =>
      (reading.enclosedDirective? line).toList ++
        (reading.step number line).enclosedDirectives (number + 1) rest

/-- Take in lines and pass over none. -/
def takeLines (reading : Reading) (number : Nat) : List Text → Reading
  | [] => reading
  | line :: rest => (reading.takeLine number line).takeLines (number + 1) rest

end Reading

def directivesInside (lines : List Text) : List EnclosedDirective :=
  Reading.enclosedDirectives {} 1 lines

/-- The outline of a document whose directives are read like its other lines. -/
def Outline.ofAllLines (lines : List Text) : Outline :=
  (Reading.takeLines {} 1 lines).outline

/-- Whether a block is another with further entries among its own, and with none exactly if
`complete`. -/
structure Block.Completes (complete : Prop) (block other : Block) : Prop where
  longer : other.entries.length ≤ block.entries.length
  same : block = other ↔ complete

namespace Block.Completes

variable {complete : Prop} {block other : Block}

theorem refl (block : Block) (holds : complete) : block.Completes complete block :=
  ⟨Nat.le_refl _, iff_of_true rfl holds⟩

theorem append (completes : block.Completes complete other) (entries : List Entry) :
    (block.append entries).Completes complete (other.append entries) := by
  refine ⟨?_, ?_⟩
  · simp only [Block.append, List.length_append]
    exact Nat.add_le_add_right completes.longer _
  · rw [← completes.same]
    cases block
    cases other
    simp [Block.append]

theorem append_left (completes : block.Completes complete other) (entries : List Entry) :
    (block.append entries).Completes (complete ∧ entries = []) other := by
  have longer := completes.longer
  refine ⟨?_, ?_⟩
  · simp only [Block.append, List.length_append]
    omega
  · rw [← completes.same]
    constructor
    · intro equal
      -- The other block is not longer, so that nothing was added.
      have none : entries = [] := by
        rw [← equal, Block.append, List.length_append] at longer
        exact List.eq_nil_of_length_eq_zero (by omega)
      rw [none, Block.append, List.append_nil] at equal
      exact ⟨equal, none⟩
    · rintro ⟨rfl, rfl⟩
      rw [Block.append, List.append_nil]

end Block.Completes

def Scope.deepen (offset : Int) (scope : Scope) : Scope :=
  { scope with bodyDepth := offset + scope.bodyDepth }

namespace Reading

/-- Whether `whole` is what `own` is when the given directives inside blocks were taken in as well,
and any directives outside. What was reported is not compared. -/
structure AddsDirectives (directives : List EnclosedDirective) (own whole : Reading) : Prop where
  nested : ∃ offset, whole.depth = offset + own.depth ∧
    whole.scopes = own.scopes.map (Scope.deepen offset)
  names : whole.declared.map Block.name = own.declared.map Block.name
  entries : ∀ place (block other : Block), whole.declared[place]? = some block →
    own.declared[place]? = some other →
    block.Completes
      (∀ directive ∈ directives, directive.scope.place = place → directive.bodyLine.added = [])
      other
  placed : ∀ directive ∈ directives,
    (own.declared.map Block.name)[directive.scope.place]? = some directive.scope.name

namespace AddsDirectives

theorem start : AddsDirectives [] {} {} :=
  ⟨⟨0, rfl, rfl⟩, rfl, fun _ _ _ impossible => by simp at impossible,
    fun _ impossible => by contradiction⟩

variable {directives : List EnclosedDirective} {own whole : Reading}
  (adds : own.AddsDirectives directives whole)

include adds in
theorem length_eq : whole.declared.length = own.declared.length := by
  have names := congrArg List.length adds.names
  rwa [List.length_map, List.length_map] at names

include adds in
theorem declare (number ownNumber : Nat) (line name : Text) :
    (own.declare ownNumber line name).AddsDirectives directives
      (whole.declare number line name) := by
  have length := adds.length_eq
  obtain ⟨⟨offset, depth, scopes⟩, names, entries, placed⟩ := adds
  refine ⟨⟨offset, ?_, ?_⟩, ?_, ?_, ?_⟩
  · simp only [Reading.declare, depth]
    omega
  · simp only [Reading.declare, depth, scopes, length]
    split <;> rfl
  · simp only [Reading.declare, List.map_append, names]
  · intro place block other found otherFound
    simp only [Reading.declare, List.getElem?_append, length] at found otherFound
    by_cases within : place < own.declared.length
    · rw [if_pos within] at found otherFound
      exact entries place block other found otherFound
    · rw [if_neg within] at found otherFound
      obtain rfl := Option.some.inj (found.symm.trans otherFound)
      refine .refl block fun directive membership same => ?_
      -- The directives stand in blocks that were declared before.
      have earlier := (List.getElem?_eq_some_iff.mp (placed directive membership)).1
      rw [List.length_map] at earlier
      omega
  · intro directive membership
    have earlier := placed directive membership
    have within := (List.getElem?_eq_some_iff.mp earlier).1
    rw [Reading.declare, List.map_append, List.getElem?_append_left within]
    exact earlier

include adds in
theorem continueBody (number ownNumber : Nat) (line : Text) :
    (own.continueBody ownNumber line).AddsDirectives directives
      (whole.continueBody number line) := by
  obtain ⟨⟨offset, depth, scopes⟩, names, entries, placed⟩ := adds
  cases opened : own.scopes with
  | nil =>
      rw [opened, List.map_nil] at scopes
      rw [continueBody_of_scopes_eq_nil own _ _ opened,
        continueBody_of_scopes_eq_nil whole _ _ scopes]
      exact ⟨⟨offset, depth, by rw [scopes, opened, List.map_nil]⟩, names, entries, placed⟩
  | cons scope outer =>
      rw [opened, List.map_cons] at scopes
      have ownEffect := continueBody_of_scopes_eq_cons ownNumber line opened
      have effect := continueBody_of_scopes_eq_cons number line scopes
      rw [depth, Scope.deepen, classify_add] at effect
      refine ⟨⟨offset, ?_, ?_⟩, ?_, ?_, ?_⟩
      · rw [effect.1, ownEffect.1]
      · rw [effect.2.2, ownEffect.2.2]
        split <;> rfl
      · rw [names_continueBody, names_continueBody, names]
      · intro place block other found otherFound
        rw [effect.2.1, List.getElem?_modify] at found
        rw [ownEffect.2.1, List.getElem?_modify] at otherFound
        obtain ⟨before, beforeFound, rfl⟩ := Option.map_eq_some_iff.mp found
        obtain ⟨otherBefore, otherBeforeFound, rfl⟩ := Option.map_eq_some_iff.mp otherFound
        have completes := entries place before otherBefore beforeFound otherBeforeFound
        split
        · exact completes.append _
        · exact completes
      · rw [names_continueBody]
        exact placed

include adds in
/-- A directive inside a block that leaves the nesting as it is adds its entries to one of the two
readings. -/
theorem enclosed (grounded : own.Grounded) {scope : Scope} {outer : List Scope}
    (opened : own.scopes = scope :: outer) (number : Nat) {line : Text}
    (plain : Declaration.ofLine? line = none)
    (level : (EnclosedDirective.mk line scope own.depth).IsLevel) :
    own.AddsDirectives (directives ++ [⟨line, scope, own.depth⟩]) (whole.takeLine number line) := by
  obtain ⟨⟨offset, depth, scopes⟩, names, entries, placed⟩ := adds
  obtain ⟨balanced, stays⟩ := level
  simp only [EnclosedDirective.bodyLine] at stays
  rw [opened, List.map_cons] at scopes
  rw [takeLine, plain]
  simp only
  rw [balanced, Int.add_zero]
  have effect := continueBody_of_scopes_eq_cons number line scopes
  rw [depth, Scope.deepen, classify_add, stays] at effect
  refine ⟨⟨offset, effect.1.trans rfl, ?_⟩, ?_, ?_, ?_⟩
  · rw [effect.2.2, opened]
    rfl
  · rw [names_continueBody, names]
  · intro place block other found otherFound
    rw [effect.2.1, List.getElem?_modify] at found
    obtain ⟨before, beforeFound, rfl⟩ := Option.map_eq_some_iff.mp found
    have completes := entries place before other beforeFound otherFound
    simp only [List.forall_mem_append, List.forall_mem_singleton]
    split
    · rename_i same
      simpa [same, EnclosedDirective.bodyLine] using completes.append_left _
    · rename_i different
      simpa [different] using completes
  · rw [List.forall_mem_append, List.forall_mem_singleton]
    obtain ⟨block, found, named⟩ := grounded scope (by rw [opened]; exact List.mem_cons_self)
    refine ⟨placed, ?_⟩
    rw [List.getElem?_map, found, ← named]
    rfl

include adds in
theorem outside (closed : own.scopes = []) (number : Nat) {line : Text}
    (plain : Declaration.ofLine? line = none) :
    own.AddsDirectives directives (whole.takeLine number line) := by
  obtain ⟨⟨offset, depth, scopes⟩, names, entries, placed⟩ := adds
  rw [closed, List.map_nil] at scopes
  rw [takeLine, plain]
  simp only
  rw [continueBody_of_scopes_eq_nil _ _ _ (by exact scopes)]
  refine ⟨⟨offset + netBraces (Text.strip line), ?_, ?_⟩, names, entries, placed⟩
  · simp only [depth]
    omega
  · simp only [scopes, closed, List.map_nil]

include adds in
theorem step (grounded : own.Grounded) (number ownNumber : Nat) (line : Text)
    (level : ∀ directive ∈ own.enclosedDirective? line, directive.IsLevel) :
    (own.step ownNumber line).AddsDirectives
      (directives ++ (own.enclosedDirective? line).toList) (whole.takeLine number line) := by
  unfold Reading.step enclosedDirective? at *
  split
  · rename_i directive
    have plain := ofLine?_eq_none_of_isDirective directive
    rw [if_pos directive] at level
    cases opened : own.scopes with
    | nil =>
        simpa using adds.outside opened number plain
    | cons scope outer =>
        rw [opened] at level
        exact adds.enclosed grounded opened number plain (level _ rfl)
  · rw [Option.toList_none, List.append_nil]
    unfold Reading.takeLine
    split
    · exact adds.declare _ _ _ _
    · apply AddsDirectives.continueBody
      obtain ⟨⟨offset, depth, scopes⟩, names, entries, placed⟩ := adds
      refine ⟨⟨offset, ?_, scopes⟩, names, entries, placed⟩
      simp only [depth]
      omega

include adds in
theorem run (grounded : own.Grounded) (number ownNumber : Nat) (lines : List Text)
    (level : ∀ directive ∈ own.enclosedDirectives ownNumber lines, directive.IsLevel) :
    (own.run ownNumber lines).AddsDirectives
      (directives ++ own.enclosedDirectives ownNumber lines) (whole.takeLines number lines) := by
  induction lines generalizing own whole directives number ownNumber with
  | nil =>
      rw [enclosedDirectives, List.append_nil]
      exact adds
  | cons line rest inductionHypothesis =>
      rw [enclosedDirectives, List.forall_mem_append] at level
      rw [enclosedDirectives, ← List.append_assoc]
      have first := adds.step grounded number ownNumber line fun directive membership =>
        level.1 directive (Option.mem_toList.mpr membership)
      exact inductionHypothesis first (grounded.step ownNumber line) _ _ level.2

end AddsDirectives

end Reading

namespace Reading.AddsDirectives

variable {directives : List EnclosedDirective} {own whole : Reading}
  (adds : own.AddsDirectives directives whole)

include adds in
theorem getElem?_eq_iff {place : Nat} (within : place < own.declared.length) :
    whole.declared[place]? = own.declared[place]? ↔
      ∀ directive ∈ directives, directive.scope.place = place → directive.bodyLine.added = [] := by
  have found := List.getElem?_eq_getElem within
  have wholeFound := List.getElem?_eq_getElem (adds.length_eq ▸ within)
  rw [← (adds.entries place _ _ wholeFound found).same, wholeFound, found, Option.some.injEq]

include adds in
theorem outline_eq_iff :
    whole.outline = own.outline ↔
      ∀ directive ∈ directives, directive.bodyLine.added = [] ∨
        directive.scope.name ∈
          (own.declared.map Block.name).drop (directive.scope.place + 1) := by
  have within : ∀ place name, IsLastPlace name place (own.declared.map Block.name) →
      place < own.declared.length := by
    intro place name last
    have stands := (List.getElem?_eq_some_iff.mp last.1).1
    rwa [List.length_map] at stands
  rw [outline, outline, ofBlocks_eq_ofBlocks_iff adds.names]
  constructor
  · intro agree directive membership
    by_cases later : directive.scope.name ∈
        (own.declared.map Block.name).drop (directive.scope.place + 1)
    · exact .inr later
    · have last : IsLastPlace _ _ _ := ⟨adds.placed directive membership, later⟩
      have equal := (adds.getElem?_eq_iff (within _ _ last)).mp (agree _ _ last)
      exact .inl (equal directive membership rfl)
  · intro nothing place name last
    rw [adds.getElem?_eq_iff (within place name last)]
    rintro directive membership rfl
    rcases nothing directive membership with none | later
    · exact none
    · -- The declaration is the last of its name.
      obtain rfl := Option.some.inj (last.1.symm.trans (adds.placed directive membership))
      exact absurd later last.2

end Reading.AddsDirectives

theorem addsDirectives_ofLines {lines : List Text}
    (level : ∀ directive ∈ directivesInside lines, directive.IsLevel) :
    (Reading.ofLines lines).AddsDirectives (directivesInside lines)
      (Reading.takeLines {} 1 lines) :=
  Reading.AddsDirectives.start.run (Reading.grounded_ofLines []) 1 1 lines level

/-- Passing over directives makes no difference exactly if those inside blocks hold no entries, but
for entries of blocks that are declared again. The directives inside blocks are supposed to leave
the nesting as it is; those outside are not. -/
theorem ofAllLines_eq_ofLines_iff {lines : List Text}
    (level : ∀ directive ∈ directivesInside lines, directive.IsLevel) :
    Outline.ofAllLines lines = Outline.ofLines lines ↔
      ∀ directive ∈ directivesInside lines, directive.bodyLine.added = [] ∨
        directive.scope.name ∈ (declaredNames lines).drop (directive.scope.place + 1) := by
  rw [← names_declaredIn]
  exact (addsDirectives_ofLines level).outline_eq_iff

def importLines : List Text :=
  [['e', 'n', 'u', 'm', ' ', 'A'], ['{'], ['X', ' ', '=', ' ', '1', ','],
   ['i', 'm', 'p', 'o', 'r', 't', ' ', '=', ' ', '2', ',', ' ', '/', '/', 'o', 'l', 'd', ';'],
   ['}']]

/-- The entry is missing from the outline. -/
theorem ofAllLines_ne_ofLines_importLines :
    (∀ directive ∈ directivesInside importLines, directive.IsLevel) ∧
      Outline.ofAllLines importLines ≠ Outline.ofLines importLines ∧
      ((Outline.ofLines importLines).find? ['A']).map Block.entryNames = some [['X']] := by
  have level : ∀ directive ∈ directivesInside importLines, directive.IsLevel := by decide
  have hidden : ¬ ∀ directive ∈ directivesInside importLines, directive.bodyLine.added = [] ∨
      directive.scope.name ∈ (declaredNames importLines).drop (directive.scope.place + 1) := by
    decide
  exact ⟨level, (ofAllLines_eq_ofLines_iff level).not.mpr hidden, by decide⟩

end EnumBlocks
