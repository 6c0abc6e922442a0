import EnumBlocks.Proofs.Braces
import EnumBlocks.Proofs.Declaration
import EnumBlocks.Proofs.Span
import Mathlib.Logic.Function.Basic

/-!
Readings of documents that follow each other. What comes next is read as if it stood alone, whatever
depth of nesting is left, but for the entries that blocks take which are still open. A block that is
located is closed where its braces balance, if not before.
-/

namespace EnumBlocks

def BodyLine.isClosing : BodyLine → Bool
  | .closing _ => true
  | _ => false

theorem isClosing_classify_iff {line : Text} {depth bodyDepth : Int} :
    (BodyLine.classify line depth bodyDepth).isClosing = true ↔
      depth ≤ bodyDepth ∧ 0 < closeCount line := by
  rw [← closeCount_strip, closeCount_pos_iff]
  unfold BodyLine.classify
  by_cases shallow : depth ≤ bodyDepth
  · by_cases closes : '}' ∈ codeOf (Text.strip line) <;>
      simp [shallow, closes, BodyLine.isClosing]
  · simp only [shallow, if_false, false_and, iff_false]
    split
    · simp [BodyLine.isClosing]
    · split <;> simp [BodyLine.isClosing]

theorem classify_add (line : Text) (base depth bodyDepth : Int) :
    BodyLine.classify line (base + depth) (base + bodyDepth) =
      BodyLine.classify line depth bodyDepth := by
  have same : base + depth ≤ base + bodyDepth ↔ depth ≤ bodyDepth := by omega
  simp only [BodyLine.classify, same]

theorem modify_append_right (front rest : List Block) (place : Nat) (change : Block → Block) :
    (front ++ rest).modify (front.length + place) change = front ++ rest.modify place change := by
  induction front with
  | nil => simp
  | cons block tail inductionHypothesis =>
      have later : (block :: tail).length + place = tail.length + place + 1 := by
        rw [List.length_cons]
        omega
      rw [later, List.cons_append, List.modify_succ_cons, inductionHypothesis, List.cons_append]

theorem modify_append_left (front rest : List Block) {place : Nat} (within : place < front.length)
    (change : Block → Block) :
    (front ++ rest).modify place change = front.modify place change ++ rest := by
  induction front generalizing place with
  | nil => contradiction
  | cons block tail inductionHypothesis =>
      cases place with
      | zero => rfl
      | succ place =>
          rw [List.cons_append, List.modify_succ_cons, List.modify_succ_cons, List.cons_append,
            inductionHypothesis (Nat.lt_of_succ_lt_succ within)]

/-- Blocks with further entries, for each block those that `added` has for its place. -/
def extendBlocks (added : Nat → List Entry) (blocks : List Block) : List Block :=
  blocks.mapIdx fun place block => block.append (added place)

@[simp]
theorem length_extendBlocks (added : Nat → List Entry) (blocks : List Block) :
    (extendBlocks added blocks).length = blocks.length :=
  List.length_mapIdx

theorem extendBlocks_append (added : Nat → List Entry) (first second : List Block) :
    extendBlocks added (first ++ second) =
      extendBlocks added first ++
        extendBlocks (fun place => added (place + first.length)) second :=
  List.mapIdx_append

theorem extendBlocks_of_nil {added : Nat → List Entry} (nothing : ∀ place, added place = [])
    (blocks : List Block) : extendBlocks added blocks = blocks := by
  apply List.ext_getElem?
  intro place
  rw [extendBlocks, List.getElem?_mapIdx, nothing place]
  simp [Block.append]

theorem modify_extendBlocks (added : Nat → List Entry) (blocks : List Block) (place : Nat)
    (entries : List Entry) :
    (extendBlocks added blocks).modify place (·.append entries) =
      extendBlocks (Function.update added place (added place ++ entries)) blocks := by
  apply List.ext_getElem?
  intro other
  simp only [extendBlocks, List.getElem?_modify, List.getElem?_mapIdx, Option.map_eq_map,
    Option.map_map]
  congr 1
  funext block
  by_cases same : place = other
  · subst same
    simp [Block.append]
  · simp [same, Function.update_of_ne (Ne.symm same)]

namespace Reading

section Body

variable (reading : Reading) (number : Nat) (line : Text)

theorem continueBody_of_scopes_eq_nil (closed : reading.scopes = []) :
    reading.continueBody number line = reading := by
  rw [continueBody, closed]

variable {reading} {scope : Scope} {outer : List Scope} (opened : reading.scopes = scope :: outer)

include opened in
theorem continueBody_of_scopes_eq_cons :
    (reading.continueBody number line).depth = reading.depth ∧
      (reading.continueBody number line).declared =
        reading.declared.modify scope.place
          (·.append (BodyLine.classify line reading.depth scope.bodyDepth).added) ∧
      (reading.continueBody number line).scopes =
        if (BodyLine.classify line reading.depth scope.bodyDepth).isClosing then outer
        else scope :: outer := by
  rw [continueBody, opened]
  simp only
  cases BodyLine.classify line reading.depth scope.bodyDepth <;>
    simp [BodyLine.isClosing, addEntries, report, opened]

end Body

/-- Whether every open block is one of those that were declared, under the name that it has there. -/
def Grounded (reading : Reading) : Prop :=
  ∀ scope ∈ reading.scopes,
    ∃ block, reading.declared[scope.place]? = some block ∧ block.name = scope.name

section Grounded

variable {reading : Reading} (grounded : reading.Grounded)

include grounded in
theorem Grounded.place_lt {scope : Scope} (opened : scope ∈ reading.scopes) :
    scope.place < reading.declared.length := by
  obtain ⟨block, found, -⟩ := grounded scope opened
  exact (List.getElem?_eq_some_iff.mp found).1

include grounded in
theorem Grounded.declare (number : Nat) (line name : Text) :
    (reading.declare number line name).Grounded := by
  have old : ∀ scope ∈ reading.scopes, ∃ block,
      (reading.declare number line name).declared[scope.place]? = some block ∧
        block.name = scope.name := by
    intro scope opened
    obtain ⟨block, found, named⟩ := grounded scope opened
    refine ⟨block, ?_, named⟩
    rw [Reading.declare, List.getElem?_append_left (grounded.place_lt opened)]
    exact found
  intro scope membership
  simp only [Reading.declare] at membership
  split at membership
  · exact old scope membership
  · rcases List.mem_cons.mp membership with rfl | earlier
    · refine ⟨_, List.getElem?_concat_length, ?_⟩
      rfl
    · exact old scope earlier

include grounded in
theorem Grounded.continueBody (number : Nat) (line : Text) :
    (reading.continueBody number line).Grounded := by
  cases opened : reading.scopes with
  | nil =>
      rw [continueBody_of_scopes_eq_nil reading number line opened]
      exact grounded
  | cons innermost outer =>
      have effect := continueBody_of_scopes_eq_cons number line opened
      intro scope membership
      have known : scope ∈ reading.scopes := by
        rw [effect.2.2] at membership
        rw [opened]
        split at membership
        · exact List.mem_cons_of_mem innermost membership
        · exact membership
      obtain ⟨block, found, named⟩ := grounded scope known
      rw [effect.2.1, List.getElem?_modify, found]
      refine ⟨_, rfl, ?_⟩
      split
      · exact named
      · exact named

include grounded in
theorem Grounded.step (number : Nat) (line : Text) : (reading.step number line).Grounded := by
  unfold Reading.step
  split
  · exact grounded
  · unfold takeLine
    split
    · exact grounded.declare _ _ _
    · apply Grounded.continueBody
      exact grounded

include grounded in
theorem Grounded.run (number : Nat) (lines : List Text) : (reading.run number lines).Grounded := by
  induction lines generalizing reading number with
  | nil => exact grounded
  | cons line rest inductionHypothesis => exact inductionHypothesis (grounded.step number line) _

theorem grounded_ofLines (lines : List Text) : (ofLines lines).Grounded := by
  apply Grounded.run
  intro scope opened
  contradiction

end Grounded

/-- Whether entries are added only to blocks that some scopes have open. -/
def AddsTo (scopes : List Scope) (added : Nat → List Entry) : Prop :=
  ∀ place, (∀ scope ∈ scopes, scope.place ≠ place) → added place = []

theorem AddsTo.update {scopes : List Scope} {added : Nat → List Entry} (adds : AddsTo scopes added)
    {scope : Scope} (opened : scope ∈ scopes) (entries : List Entry) :
    AddsTo scopes (Function.update added scope.place entries) := by
  intro place closed
  rw [Function.update_of_ne (closed scope opened).symm]
  exact adds place closed

def shiftScope (base : Reading) (scope : Scope) : Scope :=
  ⟨base.declared.length + scope.place, scope.name, base.depth + scope.bodyDepth⟩

/-- Whether a reading is what `own` is when its lines are read after those that led to `base`, where
since then the blocks of `base` got the entries that `added` has for them, and of its open blocks
those of `outer` are left. What was reported is not compared. -/
structure FollowsWith (base : Reading) (added : Nat → List Entry) (outer : List Scope)
    (own reading : Reading) : Prop where
  depth : reading.depth = base.depth + own.depth
  declared : reading.declared = extendBlocks added base.declared ++ own.declared
  scopes : reading.scopes = own.scopes.map base.shiftScope ++ outer

namespace FollowsWith

theorem start (base : Reading) : base.FollowsWith (fun _ => []) base.scopes {} base :=
  ⟨by simp, by simp [extendBlocks_of_nil], rfl⟩

variable {base own reading : Reading} {added : Nat → List Entry} {outer : List Scope}
  (follows : base.FollowsWith added outer own reading)

include follows in
theorem declare (number ownNumber : Nat) (line name : Text) :
    base.FollowsWith added outer (own.declare ownNumber line name)
      (reading.declare number line name) := by
  obtain ⟨depth, declared, scopes⟩ := follows
  refine ⟨?_, ?_, ?_⟩
  · simp only [Reading.declare, depth]
    omega
  · simp only [Reading.declare, declared, List.append_assoc]
  · simp only [Reading.declare, declared, depth, scopes, List.length_append, length_extendBlocks]
    split <;> rfl

include follows in
theorem continueBody (opened : own.scopes ≠ []) (number ownNumber : Nat) (line : Text) :
    base.FollowsWith added outer (own.continueBody ownNumber line)
      (reading.continueBody number line) := by
  obtain ⟨depth, declared, scopes⟩ := follows
  obtain ⟨scope, others, shape⟩ := List.exists_cons_of_ne_nil opened
  rw [shape, List.map_cons, List.cons_append] at scopes
  have effect := continueBody_of_scopes_eq_cons number line scopes
  have ownEffect := continueBody_of_scopes_eq_cons ownNumber line shape
  rw [depth, shiftScope, classify_add] at effect
  refine ⟨?_, ?_, ?_⟩
  · rw [effect.1, ownEffect.1]
  · rw [effect.2.1, ownEffect.2.1, declared, ← length_extendBlocks added base.declared,
      modify_append_right]
  · rw [effect.2.2, ownEffect.2.2]
    split <;> rfl

end FollowsWith

/-- Whether a reading is what `own` is when its lines are read after those that led to `base`. The
blocks that `base` leaves open may have got further entries since then and may have been closed. What
was reported is not compared. -/
structure Follows (base own reading : Reading) : Prop where
  depth : reading.depth = base.depth + own.depth
  declared : ∃ added, AddsTo base.scopes added ∧
    reading.declared = extendBlocks added base.declared ++ own.declared
  scopes : ∃ outer, outer <:+ base.scopes ∧
    reading.scopes = own.scopes.map base.shiftScope ++ outer

namespace Follows

variable {base own reading : Reading} (follows : base.Follows own reading)

theorem ofWith {added : Nat → List Entry} {outer : List Scope} (adds : AddsTo base.scopes added)
    (suffixed : outer <:+ base.scopes) (follows : base.FollowsWith added outer own reading) :
    base.Follows own reading :=
  ⟨follows.depth, ⟨added, adds, follows.declared⟩, ⟨outer, suffixed, follows.scopes⟩⟩

include follows in
theorem declare (number ownNumber : Nat) (line name : Text) :
    base.Follows (own.declare ownNumber line name) (reading.declare number line name) := by
  obtain ⟨depth, ⟨added, adds, declared⟩, ⟨outer, suffixed, scopes⟩⟩ := follows
  exact ofWith adds suffixed (FollowsWith.declare ⟨depth, declared, scopes⟩ _ _ _ _)

include follows in
theorem continueBody (grounded : base.Grounded) (number ownNumber : Nat) (line : Text) :
    base.Follows (own.continueBody ownNumber line) (reading.continueBody number line) := by
  obtain ⟨depth, ⟨added, adds, declared⟩, ⟨outer, suffixed, scopes⟩⟩ := follows
  by_cases opened : own.scopes = []
  · rw [continueBody_of_scopes_eq_nil own _ _ opened]
    rw [opened, List.map_nil, List.nil_append] at scopes
    cases outer with
    | nil =>
        rw [continueBody_of_scopes_eq_nil reading _ _ scopes]
        exact ⟨depth, ⟨added, adds, declared⟩, ⟨[], suffixed, by simpa [opened] using scopes⟩⟩
    | cons scope others =>
        -- The line belongs to a block that was open before.
        have effect := continueBody_of_scopes_eq_cons number line scopes
        have earlier : scope ∈ base.scopes := suffixed.subset List.mem_cons_self
        have within : scope.place < (extendBlocks added base.declared).length := by
          rw [length_extendBlocks]
          exact grounded.place_lt earlier
        rw [declared, modify_append_left _ _ within, modify_extendBlocks] at effect
        refine ⟨effect.1.trans depth, ⟨_, adds.update earlier _, effect.2.1⟩, ?_⟩
        rw [effect.2.2, opened]
        split
        · exact ⟨others, (List.suffix_cons scope others).trans suffixed, rfl⟩
        · exact ⟨scope :: others, suffixed, rfl⟩
  · exact ofWith adds suffixed
      (FollowsWith.continueBody ⟨depth, declared, scopes⟩ opened _ _ _)

include follows in
theorem step (grounded : base.Grounded) (number ownNumber : Nat) (line : Text) :
    base.Follows (own.step ownNumber line) (reading.step number line) := by
  unfold Reading.step
  split
  · exact follows
  · unfold Reading.takeLine
    split
    · exact follows.declare _ _ _ _
    · apply Follows.continueBody _ grounded
      refine ⟨?_, follows.declared, follows.scopes⟩
      simp only [follows.depth]
      omega

include follows in
theorem run (grounded : base.Grounded) (number ownNumber : Nat) (lines : List Text) :
    base.Follows (own.run ownNumber lines) (reading.run number lines) := by
  induction lines generalizing own reading number ownNumber with
  | nil => exact follows
  | cons line rest inductionHypothesis =>
      exact inductionHypothesis (follows.step grounded number ownNumber line) _ _

end Follows

end Reading

/-- Whether every block that some lines open is closed by them. -/
def Settled (lines : List Text) : Prop :=
  (Reading.ofLines lines).scopes = []

/-- The declarations in some lines, each with its own entries. -/
def declaredIn (lines : List Text) : List Block :=
  (Reading.ofLines lines).declared

theorem follows_ofLines (first second : List Text) :
    (Reading.ofLines first).Follows (Reading.ofLines second)
      (Reading.ofLines (first ++ second)) := by
  have start : (Reading.ofLines first).Follows {} (Reading.ofLines first) :=
    .ofWith (fun _ _ => rfl) List.suffix_rfl (.start (Reading.ofLines first))
  have whole : Reading.ofLines (first ++ second) =
      (Reading.ofLines first).run (1 + first.length) second := Reading.run_append {} 1 first second
  rw [whole]
  exact start.run (Reading.grounded_ofLines first) (1 + first.length) 1 second

/-- After lines that leave no block open, further lines are read as if they stood alone. -/
theorem declaredIn_append {first : List Text} (settled : Settled first) (second : List Text) :
    declaredIn (first ++ second) = declaredIn first ++ declaredIn second := by
  obtain ⟨added, adds, declared⟩ := (follows_ofLines first second).declared
  rw [settled] at adds
  have nothing : ∀ place, added place = [] := fun place => adds place (by simp)
  rw [extendBlocks_of_nil nothing] at declared
  exact declared

theorem settled_append {first second : List Text} (settled : Settled first)
    (secondSettled : Settled second) : Settled (first ++ second) := by
  obtain ⟨outer, suffixed, scopes⟩ := (follows_ofLines first second).scopes
  rw [settled, List.suffix_nil] at suffixed
  rw [Settled, scopes, secondSettled, suffixed]
  rfl

def declaredNames (lines : List Text) : List Text :=
  (lines.filterMap Declaration.ofLine?).map Declaration.name

theorem declaredNames_append (first second : List Text) :
    declaredNames (first ++ second) = declaredNames first ++ declaredNames second := by
  simp [declaredNames]

namespace Reading

theorem names_modify_append (blocks : List Block) (place : Nat) (entries : List Entry) :
    (blocks.modify place (·.append entries)).map Block.name = blocks.map Block.name := by
  induction blocks generalizing place with
  | nil => simp
  | cons block rest inductionHypothesis =>
      cases place with
      | zero => rfl
      | succ place => simp [inductionHypothesis]

theorem names_continueBody (reading : Reading) (number : Nat) (line : Text) :
    (reading.continueBody number line).declared.map Block.name =
      reading.declared.map Block.name := by
  cases opened : reading.scopes with
  | nil => rw [continueBody_of_scopes_eq_nil reading number line opened]
  | cons scope outer =>
      rw [(continueBody_of_scopes_eq_cons number line opened).2.1, names_modify_append]

theorem names_step (reading : Reading) (number : Nat) (line : Text) :
    (reading.step number line).declared.map Block.name =
      reading.declared.map Block.name ++ declaredNames [line] := by
  unfold step declaredNames
  split
  · rename_i directive
    simp [ofLine?_eq_none_of_isDirective directive]
  · unfold takeLine
    split
    · rename_i declaration read
      simp [declare, read]
    · rename_i plain
      simp only [names_continueBody]
      simp [plain]

theorem names_run (reading : Reading) (number : Nat) (lines : List Text) :
    (reading.run number lines).declared.map Block.name =
      reading.declared.map Block.name ++ declaredNames lines := by
  induction lines generalizing reading number with
  | nil => simp [declaredNames]
  | cons line rest inductionHypothesis =>
      rw [run, inductionHypothesis, names_step, List.append_assoc, ← declaredNames_append]
      rfl

end Reading

theorem names_declaredIn (lines : List Text) :
    (declaredIn lines).map Block.name = declaredNames lines := by
  have names := Reading.names_run {} 1 lines
  rw [List.map_nil, List.nil_append] at names
  exact names

namespace Reading

theorem run_of_scopes_eq_nil {reading : Reading} (closed : reading.scopes = []) (number : Nat)
    {lines : List Text} (plain : ∀ line ∈ lines, Declaration.ofLine? line = none) :
    (reading.run number lines).scopes = [] := by
  induction lines generalizing reading number with
  | nil => exact closed
  | cons line rest inductionHypothesis =>
      refine inductionHypothesis ?_ _ fun other membership => plain other (by simp [membership])
      unfold step
      split
      · exact closed
      · rw [takeLine, plain line (by simp)]
        simp only
        rw [continueBody_of_scopes_eq_nil _ _ _ (by exact closed)]
        exact closed

theorem step_of_scopes_eq_cons {reading : Reading} {scope : Scope} {outer : List Scope}
    (opened : reading.scopes = scope :: outer) (number : Nat) {line : Text}
    (plain : Declaration.ofLine? line = none)
    (bracelessDirective : isDirective (Text.strip line) = true → Braceless (codeOf line)) :
    (reading.step number line).depth = reading.depth + netBraces line ∧
      (reading.step number line).scopes =
        if reading.depth + netBraces line ≤ scope.bodyDepth ∧ 0 < closeCount line then outer
        else scope :: outer := by
  unfold step
  split
  · rename_i directive
    have braceless := bracelessDirective directive
    have closes : closeCount line = 0 := List.count_eq_zero_of_not_mem braceless.2
    rw [netBraces_eq_zero braceless, closes, if_neg (by omega)]
    exact ⟨by omega, opened⟩
  · rw [takeLine, plain]
    simp only [netBraces_strip]
    have still : { reading with depth := reading.depth + netBraces line }.scopes =
        scope :: outer := opened
    have effect := continueBody_of_scopes_eq_cons number line still
    refine ⟨effect.1, ?_⟩
    rw [effect.2.2]
    simp only [isClosing_classify_iff]

section Closing

variable {reading : Reading} {scope : Scope} (opened : reading.scopes = [scope]) (number : Nat)
  {lines : List Text} (plain : ∀ line ∈ lines, Declaration.ofLine? line = none)
  (bracelessDirectives :
    ∀ line ∈ lines, isDirective (Text.strip line) = true → Braceless (codeOf line))

include opened plain bracelessDirectives in
theorem run_of_unopened (unopened : ∀ line ∈ lines, openCount line = 0) :
    (reading.run number lines).scopes = [] ∨
      (reading.run number lines).scopes = [scope] ∧
        (reading.run number lines).depth ≤ reading.depth := by
  induction lines generalizing reading number with
  | nil => exact .inr ⟨opened, Int.le_refl _⟩
  | cons line rest inductionHypothesis =>
      rw [List.forall_mem_cons] at plain bracelessDirectives unopened
      have effect := step_of_scopes_eq_cons opened number plain.1 bracelessDirectives.1
      have counts : netBraces line = openCount line - closeCount line := rfl
      rw [run]
      split at effect
      · exact .inl (run_of_scopes_eq_nil effect.2 _ plain.2)
      · rcases inductionHypothesis effect.2 (number + 1) plain.2 bracelessDirectives.2 unopened.2
          with closed | ⟨still, shallower⟩
        · exact .inl closed
        · exact .inr ⟨still, by omega⟩

include opened plain bracelessDirectives in
/-- The only open block is closed by the line where its braces balance, if not before. -/
theorem run_of_linesToClose? {depth : Int} (shallow : reading.depth ≤ scope.bodyDepth + depth)
    (closed : linesToClose? .perCharacter depth lines = some (lines.length - 1))
    (inside : 0 < depth ∨ depth = 0 ∧ ∀ line ∈ lines.head?, 0 < openCount line) :
    (reading.run number lines).scopes = [] := by
  induction lines generalizing reading number depth with
  | nil => simp [linesToClose?] at closed
  | cons line rest inductionHypothesis =>
      rw [List.forall_mem_cons] at plain bracelessDirectives
      have effect := step_of_scopes_eq_cons opened number plain.1 bracelessDirectives.1
      rw [linesToClose?, Counting.delta, List.length_cons, Nat.add_sub_cancel] at closed
      have counts : netBraces line = openCount line - closeCount line := rfl
      rw [run]
      split at closed
      · rename_i balanced
        have closes : 0 < closeCount line := by
          rcases inside with positive | ⟨zero, opens⟩
          · omega
          · have first := opens line rfl
            omega
        rw [if_pos ⟨by omega, closes⟩] at effect
        exact run_of_scopes_eq_nil effect.2 _ plain.2
      · rename_i unbalanced
        obtain ⟨count, found, equality⟩ := Option.map_eq_some_iff.mp closed
        split at effect
        · exact run_of_scopes_eq_nil effect.2 _ plain.2
        · refine inductionHypothesis effect.2 (number + 1) plain.2 bracelessDirectives.2
            (by omega) ?_ (.inl (Int.not_le.mp unbalanced))
          rw [found]
          congr 1
          omega

end Closing

end Reading

end EnumBlocks
