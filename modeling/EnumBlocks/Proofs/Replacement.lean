import EnumBlocks.Proofs.FixedPoint
import EnumBlocks.Proofs.Independence
import Mathlib.Data.List.Nodup

/-!
Saving blocks that stand apart as one replacement. The blocks are replaced one after the other, each
where it is located in the lines that those before it left. If no two of them have a line in common,
this comes to the same as replacing all of them at once where they stand in the document, in
whatever order they are listed.
-/

namespace EnumBlocks

def Span.Contains (span : Span) (index : Nat) : Prop :=
  span.head ≤ index ∧ index ≤ span.closing

instance (span : Span) (index : Nat) : Decidable (span.Contains index) :=
  inferInstanceAs (Decidable (_ ∧ _))

/-- What a block leaves of a line of its own: its written lines where it is declared, else nothing.
A line that is not its own is left to others. -/
def Block.replacement? (block : Block) (lines : List Text) (settings : Settings) (index : Nat)
    (line : Text) : Option (List Text) :=
  match spanOf block.name lines settings.counting with
  | .error _ => none
  | .ok span =>
      if span.Contains index then
        some (if index = span.head then block.rewritten line settings else [])
      else none

def replacedLine (blocks : List Block) (lines : List Text) (settings : Settings) (index : Nat)
    (line : Text) : List Text :=
  (blocks.findSome? (·.replacement? lines settings index line)).getD [line]

/-- The lines of a document where blocks are replaced all at once, each where it is located. -/
def replacedTogether (blocks : List Block) (lines : List Text) (settings : Settings) : List Text :=
  (lines.mapIdx (replacedLine blocks lines settings)).flatten

/-- Whether blocks can all be located in some lines, no two of them on a common line. -/
structure StandApart (blocks : List Block) (lines : List Text) (counting : Counting) : Prop where
  located : ∀ block ∈ blocks, ∃ span, spanOf block.name lines counting = .ok span
  apart : ∀ block ∈ blocks, ∀ other ∈ blocks, block.name ≠ other.name → ∀ span otherSpan,
    spanOf block.name lines counting = .ok span →
      spanOf other.name lines counting = .ok otherSpan → span.Apart otherSpan

/-- Whether the names of a block and of its entries are made of word characters. The name of the
block may be empty. -/
structure Block.Worded (block : Block) : Prop where
  name : ∀ c ∈ block.name, Text.isWord c = true
  entries : ∀ entry ∈ block.entries, entry.isWritten = true → IsName entry.name

section Declared

theorem namedAfterBlanks_nil {name : Text} (named : IsName name) {text : Text}
    (follows : namedAfterBlanks name text = true) : namedAfterBlanks [] text = true := by
  induction text with
  | nil => contradiction
  | cons c rest inductionHypothesis =>
      simp only [namedAfterBlanks, Bool.and_eq_true, Bool.or_eq_true, startsWithName_iff named]
        at follows ⊢
      obtain ⟨blank, here | further⟩ := follows
      · obtain ⟨d, others, shape, word⟩ := named.exists_cons
        cases rest with
        | nil => simp [← here] at shape
        | cons next tail =>
            have begins : Text.isWord next = true := by
              by_contra mark
              rw [← here, List.takeWhile_cons_of_neg mark] at shape
              contradiction
            refine ⟨blank, .inl ?_⟩
            simp [startsWithName, List.isPrefixOf?, Text.isBoundary, begins,
              Text.not_isWord_of_isBlank blank]
      · exact ⟨blank, .inr (inductionHypothesis further)⟩

theorem declares_nil {name line : Text} (named : IsName name)
    (declared : declares name line = true) : declares [] line = true := by
  unfold declares at declared ⊢
  cases keyword : afterKeyword? line with
  | none => simp [keyword] at declared
  | some rest =>
      rw [keyword, Option.any_some] at declared
      exact namedAfterBlanks_nil named declared

variable {settings : Settings} (readable : settings.Readable) {block : Block}
  (worded : block.Worded)

include readable worded in
/-- A written block declares no name but its own. Without a name it declares nothing. -/
theorem Block.Worded.undeclared_rewritten {other : Text} (otherNamed : IsName other)
    (different : other ≠ block.name) (declaration : Text) :
    Undeclared other (block.rewritten declaration settings) := by
  have blank := Text.isBlankText_indentOf declaration
  by_cases nameless : block.name = []
  · intro line membership
    rw [Block.rewritten, Block.render_eq] at membership
    rcases List.mem_cons.mp membership with rfl | later
    · have list := isAttributeList_attributesOf declaration
      rw [declares, afterKeyword?_headerLine readable blank list, nameless, Option.any_some,
        Bool.eq_false_iff]
      intro follows
      exact otherNamed.1 ((namedAfterBlanks_iff otherNamed _).mp follows).2.symm
    · exact not_declares_of_ofLine?_eq_none otherNamed
        (ofLine?_of_mem_bodyLines readable blank worded.entries line later)
  · exact EnumBlocks.undeclared_rewritten readable ⟨nameless, worded.name⟩ worded.entries otherNamed
      different declaration

end Declared

section Line

variable {blocks : List Block} {lines : List Text} {settings : Settings} {block : Block}
  {span : Span} (located : spanOf block.name lines settings.counting = .ok span)
  {index : Nat} (line : Text)

include located in
theorem replacement?_eq_none_iff :
    block.replacement? lines settings index line = none ↔ ¬ span.Contains index := by
  simp [Block.replacement?, located]

include located in
theorem replacement?_of_contains (inside : span.Contains index) :
    block.replacement? lines settings index line =
      some (if index = span.head then block.rewritten line settings else []) := by
  simp [Block.replacement?, located, inside]

include located in
theorem replacedLine_concat_of_not_contains (outside : ¬ span.Contains index) :
    replacedLine (blocks ++ [block]) lines settings index line =
      replacedLine blocks lines settings index line := by
  simp [replacedLine, List.findSome?_append, (replacement?_eq_none_iff located line).mpr outside]

theorem exists_of_replacement?_eq_some {written : List Text}
    (replaced : block.replacement? lines settings index line = some written) :
    ∃ span, spanOf block.name lines settings.counting = .ok span ∧ span.Contains index ∧
      written = if index = span.head then block.rewritten line settings else [] := by
  unfold Block.replacement? at replaced
  split at replaced
  · contradiction
  · rename_i span located
    split at replaced
    · rename_i inside
      cases replaced
      exact ⟨span, located, inside, rfl⟩
    · contradiction

end Line

theorem Span.Apart.not_contains {span other : Span} (apart : span.Apart other) {index : Nat}
    (inside : span.Contains index) : ¬ other.Contains index := by
  unfold Span.Apart at apart
  unfold Span.Contains at inside ⊢
  omega

theorem StandApart.subset {blocks some : List Block} {lines : List Text} {counting : Counting}
    (standApart : StandApart blocks lines counting) (within : some ⊆ blocks) :
    StandApart some lines counting where
  located block membership := standApart.located block (within membership)
  apart block membership other otherMembership :=
    standApart.apart block (within membership) other (within otherMembership)

namespace StandApart

variable {blocks : List Block} {lines : List Text} {settings : Settings}
  (standApart : StandApart blocks lines settings.counting)

include standApart in
theorem name_eq_of_replacement? {block other : Block} (membership : block ∈ blocks)
    (otherMembership : other ∈ blocks) {index : Nat} {line : Text}
    {written otherWritten : List Text}
    (replaced : block.replacement? lines settings index line = some written)
    (otherReplaced : other.replacement? lines settings index line = some otherWritten) :
    block.name = other.name := by
  by_contra different
  obtain ⟨span, located, inside, -⟩ := exists_of_replacement?_eq_some line replaced
  obtain ⟨otherSpan, otherLocated, otherInside, -⟩ :=
    exists_of_replacement?_eq_some line otherReplaced
  have apart := standApart.apart block membership other otherMembership different span otherSpan
    located otherLocated
  exact apart.not_contains inside otherInside

variable (distinct : (blocks.map Block.name).Nodup)

include standApart distinct in
theorem replacedLine_of_mem {block : Block} (membership : block ∈ blocks) {index : Nat}
    {line : Text} {written : List Text}
    (replaced : block.replacement? lines settings index line = some written) :
    replacedLine blocks lines settings index line = written := by
  unfold replacedLine
  cases found : blocks.findSome? (·.replacement? lines settings index line) with
  | none =>
      rw [List.findSome?_eq_none_iff.mp found block membership] at replaced
      contradiction
  | some otherWritten =>
      obtain ⟨other, otherMembership, otherReplaced⟩ := List.exists_of_findSome?_eq_some found
      have named := standApart.name_eq_of_replacement? membership otherMembership replaced
        otherReplaced
      have same := List.inj_on_of_nodup_map distinct membership otherMembership named
      rw [← same, replaced] at otherReplaced
      exact (Option.some.inj otherReplaced).symm

include standApart distinct in
theorem replacedTogether_perm {others : List Block} (reordered : others.Perm blocks) :
    replacedTogether others lines settings = replacedTogether blocks lines settings := by
  have same : replacedLine others lines settings = replacedLine blocks lines settings := by
    funext index line
    cases found : others.findSome? (·.replacement? lines settings index line) with
    | none =>
        have none : blocks.findSome? (·.replacement? lines settings index line) = none :=
          List.findSome?_eq_none_iff.mpr fun block membership =>
            List.findSome?_eq_none_iff.mp found block (reordered.mem_iff.mpr membership)
        rw [replacedLine, found, replacedLine, none]
    | some written =>
        obtain ⟨block, membership, replaced⟩ := List.exists_of_findSome?_eq_some found
        rw [standApart.replacedLine_of_mem distinct (reordered.mem_iff.mp membership) replaced,
          replacedLine, found, Option.getD_some]
  rw [replacedTogether, same, replacedTogether]

end StandApart

section Step

theorem flatten_mapIdx_singleton (lines : List Text) :
    (lines.mapIdx fun _ line => [line]).flatten = lines := by
  induction lines with
  | nil => rfl
  | cons line rest inductionHypothesis =>
      rw [List.mapIdx_cons, List.flatten_cons, inductionHypothesis]
      rfl

theorem flatten_mapIdx_located {name : Text} {lines : List Text} {counting : Counting} {span : Span}
    (located : spanOf name lines counting = .ok span) (change : Nat → Text → List Text) :
    (lines.mapIdx change).flatten =
      ((lines.take span.head).mapIdx change).flatten ++
        (((span.extract lines).mapIdx fun index => change (index + span.head)).flatten ++
          ((lines.drop (span.closing + 1)).mapIdx fun index =>
            change (index + span.size + span.head)).flatten) := by
  conv_lhs => rw [take_append_extract_append_drop located]
  rw [List.mapIdx_append, List.mapIdx_append, length_take_head located, length_extract located,
    List.flatten_append, List.flatten_append]

variable {done : List Block} {next : Block} {lines : List Text} {settings : Settings}
  (standApart : StandApart (done ++ [next]) lines settings.counting)
  (distinct : ((done ++ [next]).map Block.name).Nodup)
  {span : Span} (located : spanOf next.name lines settings.counting = .ok span)

include standApart distinct located in
/-- The blocks replaced so far leave the lines of the next one alone. -/
theorem replacedLine_of_contains {index : Nat} (inside : span.Contains index) (line : Text) :
    replacedLine done lines settings index line = [line] := by
  have none : done.findSome? (·.replacement? lines settings index line) = none := by
    rw [List.findSome?_eq_none_iff]
    intro block membership
    by_contra some
    obtain ⟨written, replaced⟩ := Option.ne_none_iff_exists'.mp some
    have named := standApart.name_eq_of_replacement? (List.mem_append_left _ membership)
      (List.mem_append_right _ (List.mem_singleton_self next)) replaced
      (replacement?_of_contains located line inside)
    rw [List.map_append, List.nodup_append] at distinct
    exact distinct.2.2 _ (List.mem_map_of_mem membership) _ (List.mem_singleton_self _) named
  rw [replacedLine, none, Option.getD_none]

include standApart distinct located in
theorem replacedTogether_done :
    replacedTogether done lines settings =
      ((lines.take span.head).mapIdx (replacedLine done lines settings)).flatten ++
        (span.extract lines ++
          ((lines.drop (span.closing + 1)).mapIdx fun index =>
            replacedLine done lines settings (index + span.size + span.head)).flatten) := by
  have bounds := spanOf_bounds located
  have own : ((span.extract lines).mapIdx fun index =>
      replacedLine done lines settings (index + span.head)) =
        (span.extract lines).mapIdx fun _ line => [line] := by
    rw [List.mapIdx_eq_mapIdx_iff]
    intro index bound
    rw [length_extract located, Span.size] at bound
    apply replacedLine_of_contains standApart distinct located
    unfold Span.Contains
    omega
  rw [replacedTogether, flatten_mapIdx_located located, own, flatten_mapIdx_singleton]

include standApart distinct located in
theorem replacedTogether_concat :
    replacedTogether (done ++ [next]) lines settings =
      ((lines.take span.head).mapIdx (replacedLine done lines settings)).flatten ++
        (next.rewritten ((span.extract lines).headD []) settings ++
          ((lines.drop (span.closing + 1)).mapIdx fun index =>
            replacedLine done lines settings (index + span.size + span.head)).flatten) := by
  have bounds := spanOf_bounds located
  have first : (lines.take span.head).mapIdx (replacedLine (done ++ [next]) lines settings) =
      (lines.take span.head).mapIdx (replacedLine done lines settings) := by
    rw [List.mapIdx_eq_mapIdx_iff]
    intro index bound
    rw [length_take_head located] at bound
    apply replacedLine_concat_of_not_contains located
    unfold Span.Contains
    omega
  have last : ((lines.drop (span.closing + 1)).mapIdx fun index =>
      replacedLine (done ++ [next]) lines settings (index + span.size + span.head)) =
        (lines.drop (span.closing + 1)).mapIdx fun index =>
          replacedLine done lines settings (index + span.size + span.head) := by
    rw [List.mapIdx_eq_mapIdx_iff]
    intro index bound
    apply replacedLine_concat_of_not_contains located
    unfold Span.Contains Span.size
    omega
  have own : ((span.extract lines).mapIdx fun index =>
      replacedLine (done ++ [next]) lines settings (index + span.head)).flatten =
        next.rewritten ((span.extract lines).headD []) settings := by
    have replaced : ∀ index < (span.extract lines).length, ∀ line,
        replacedLine (done ++ [next]) lines settings (index + span.head) line =
          if index = 0 then next.rewritten line settings else [] := by
      intro index bound line
      rw [length_extract located, Span.size] at bound
      have inside : span.Contains (index + span.head) := by
        unfold Span.Contains
        omega
      rw [standApart.replacedLine_of_mem distinct
        (List.mem_append_right _ (List.mem_singleton_self next))
        (replacement?_of_contains located line inside)]
      simp
    obtain ⟨header, rest, shape, -⟩ := (isExtent_extract located).exists_header
    rw [shape] at replaced ⊢
    have nothing : (rest.mapIdx fun index =>
        replacedLine (done ++ [next]) lines settings (index + 1 + span.head)).flatten = [] := by
      rw [List.flatten_eq_nil_iff]
      intro written membership
      obtain ⟨index, bound, rfl⟩ := List.mem_mapIdx.mp membership
      rw [replaced (index + 1) (by simpa using bound), if_neg (Nat.succ_ne_zero index)]
    rw [List.mapIdx_cons, List.flatten_cons, nothing, replaced 0 (by simp), if_pos rfl,
      List.append_nil]
    rfl
  rw [replacedTogether, flatten_mapIdx_located located, first, own, last]

variable (readable : settings.Readable) (worded : ∀ block ∈ done ++ [next], block.Worded)

include distinct located readable worded in
theorem undeclared_replacedLine :
    Undeclared next.name
      ((lines.take span.head).mapIdx (replacedLine done lines settings)).flatten := by
  have absent := undeclared_take_head located
  intro line membership
  obtain ⟨written, replaced, inside⟩ := List.mem_flatten.mp membership
  obtain ⟨index, bound, rfl⟩ := List.mem_mapIdx.mp replaced
  unfold replacedLine at inside
  cases found : done.findSome?
      (·.replacement? lines settings index (lines.take span.head)[index]) with
  | none =>
      rw [found, Option.getD_none, List.mem_singleton] at inside
      rw [inside]
      exact absent _ (List.getElem_mem bound)
  | some written =>
      rw [found, Option.getD_some] at inside
      obtain ⟨block, earlier, ownReplaced⟩ := List.exists_of_findSome?_eq_some found
      obtain ⟨own, ownLocated, -, rfl⟩ := exists_of_replacement?_eq_some _ ownReplaced
      split at inside
      · rename_i atHead
        have different : block.name ≠ next.name := by
          rw [List.map_append, List.nodup_append] at distinct
          exact distinct.2.2 _ (List.mem_map_of_mem earlier) _ (List.mem_singleton_self _)
        have wordedBlock := worded block (List.mem_append_left _ earlier)
        have wordedNext := worded next (List.mem_append_right _ (List.mem_singleton_self next))
        -- A name that is not empty is declared by the written block alone. The empty one would be
        -- found in the line that declared the block, in front of where it is found.
        by_cases nameless : next.name = []
        · rw [nameless] at absent different
          have ownBounds := spanOf_bounds ownLocated
          have declared := declares_getElem_head ownLocated (by omega)
          have plain := absent _ (List.getElem_mem bound)
          simp only [List.getElem_take, atHead] at plain
          rw [declares_nil ⟨different, wordedBlock.name⟩ declared] at plain
          contradiction
        · exact wordedBlock.undeclared_rewritten readable ⟨nameless, wordedNext.name⟩
            (Ne.symm different) _ line inside
      · contradiction

include standApart distinct located readable worded in
theorem update_replacedTogether {state : Commit}
    (sofar : state.lines = replacedTogether done lines settings) :
    state.update settings next =
      { state with
        lines := replacedTogether (done ++ [next]) lines settings
        updated := state.updated ++ [next.name] } := by
  have absent := undeclared_replacedLine distinct located readable worded
  have replaced := replace_surrounded (isExtent_extract located) absent
    ((lines.drop (span.closing + 1)).mapIdx fun index =>
      replacedLine done lines settings (index + span.size + span.head)).flatten (Eq.refl next.name)
  rw [← replacedTogether_done standApart distinct located,
    ← replacedTogether_concat standApart distinct located] at replaced
  rw [Commit.update, sofar, replaced]

end Step

section Run

variable {settings : Settings} (readable : settings.Readable) {lines : List Text}

include readable in
theorem foldl_update_standApart {blocks : List Block}
    (standApart : StandApart blocks lines settings.counting)
    (distinct : (blocks.map Block.name).Nodup) (worded : ∀ block ∈ blocks, block.Worded) :
    blocks.foldl (Commit.update settings) (Commit.start lines) =
      { Commit.start lines with
        lines := replacedTogether blocks lines settings
        updated := blocks.map Block.name } := by
  induction blocks using List.reverseRecOn with
  | nil =>
      have unchanged : replacedTogether [] lines settings = lines := flatten_mapIdx_singleton lines
      rw [List.foldl_nil, unchanged]
      rfl
  | append_singleton done next inductionHypothesis =>
      have sofar := inductionHypothesis (standApart.subset (List.subset_append_left _ _))
        (List.Nodup.sublist ((List.sublist_append_left _ _).map _) distinct)
        fun block membership => worded block (List.mem_append_left _ membership)
      obtain ⟨span, located⟩ := standApart.located next
        (List.mem_append_right _ (List.mem_singleton_self next))
      rw [List.foldl_append, sofar, List.foldl_cons, List.foldl_nil,
        update_replacedTogether standApart distinct located readable worded rfl, List.map_append]
      rfl

end Run

/-- Saving blocks that were not edited and that stand apart replaces all of them at once, each in
its place, and leaves all other lines. It comes to the same whatever the order of the blocks. -/
theorem commit_standApart {settings : Settings} (readable : settings.Readable) {lines : List Text}
    {outline : Outline} (standApart : StandApart outline.blocks lines settings.counting)
    (worded : ∀ block ∈ outline.blocks, block.Worded) :
    commit lines outline {} settings none =
        { Commit.start lines with
          lines := replacedTogether outline.blocks lines settings
          updated := outline.names } ∧
      ∀ other : Outline, other.blocks.Perm outline.blocks →
        commit lines other {} settings none =
          { commit lines outline {} settings none with updated := other.names } := by
  have saved := foldl_update_standApart readable standApart outline.distinct worded
  refine ⟨by rw [commit_unedited, saved]; rfl, ?_⟩
  intro other reordered
  have otherSaved := foldl_update_standApart readable (standApart.subset reordered.subset)
    other.distinct fun block membership => worded block (reordered.subset membership)
  rw [commit_unedited, otherSaved, commit_unedited, saved,
    standApart.replacedTogether_perm outline.distinct reordered]
  rfl

def reversedOutline : Outline :=
  ⟨[⟨['B'], [⟨['X'], [], []⟩]⟩, ⟨['A'], []⟩], by decide⟩

theorem commit_standApart_reversedOutline :
    (commit twoBlocks reversedOutline {} {} none).lines =
      Block.render ⟨['A'], []⟩ [] [] {} ++ Block.render ⟨['B'], [⟨['X'], [], []⟩]⟩ [] [] {} := by
  have first : spanOf ['A'] twoBlocks .perCharacter = .ok ⟨0, 0, 0⟩ := rfl
  have second : spanOf ['B'] twoBlocks .perCharacter = .ok ⟨1, 1, 1⟩ := rfl
  have standApart : StandApart reversedOutline.blocks twoBlocks .perCharacter := by
    constructor
    · simp only [reversedOutline, List.forall_mem_cons, List.not_mem_nil, false_implies,
        implies_true, and_true]
      exact ⟨⟨_, second⟩, ⟨_, first⟩⟩
    · simp only [reversedOutline, List.forall_mem_cons, List.not_mem_nil, false_implies,
        implies_true, and_true, first, second, Except.ok.injEq]
      simp [Span.Apart]
  have firstNamed : IsName ['A'] := by decide
  have secondNamed : IsName ['B'] := by decide
  have worded : ∀ block ∈ reversedOutline.blocks, block.Worded := by
    simp only [reversedOutline, List.forall_mem_cons, List.not_mem_nil, false_implies,
      implies_true, and_true]
    exact ⟨⟨secondNamed.2, by decide⟩, ⟨firstNamed.2, by decide⟩⟩
  rw [(commit_standApart Settings.readable_default standApart worded).1]
  decide

end EnumBlocks
