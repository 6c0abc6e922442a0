import EnumBlocks.Proofs.Loss
import EnumBlocks.Proofs.ReadEntries

/-!
Which declarations a save without edits keeps. Those are lost that a located block of another name
reaches over, which happens where the braces of the block are missing or left open.
-/

namespace EnumBlocks

/-- Whether no located block reaches over a declaration of another. -/
def BlocksSeparate (counting : Counting) (lines : List Text) : Prop :=
  ∀ name ∈ declaredNames lines, ∀ span, spanOf name lines counting = .ok span →
    ∀ other ∈ declaredNames (span.extract lines), other = name

theorem blocksSeparate_append_iff {counting : Counting} {first later : List Text} {name : Text}
    (single : declaredNames first = [name])
    (absent : ∀ other ∈ declaredNames later, Undeclared other first)
    (own : ∀ span, spanOf name (first ++ later) counting = .ok span →
      ∀ other ∈ declaredNames (span.extract (first ++ later)), other = name) :
    BlocksSeparate counting (first ++ later) ↔ BlocksSeparate counting later := by
  unfold BlocksSeparate
  rw [declaredNames_append, single]
  constructor
  · intro separate other membership span located inner innerMembership
    have shifted := (spanOf_append_left (absent other membership) later _).mpr ⟨span, located, rfl⟩
    refine separate other (List.mem_cons_of_mem name membership) _ shifted inner ?_
    rw [extract_shift span rfl]
    exact innerMembership
  · intro separate other membership span located
    rcases List.mem_cons.mp membership with rfl | laterMembership
    · exact own span located
    · obtain ⟨inner, innerLocated, rfl⟩ :=
        (spanOf_append_left (absent other laterMembership) later span).mp located
      rw [extract_shift inner rfl]
      exact separate other laterMembership inner innerLocated

theorem exists_split_of_declaredNames {lines names : List Text} {name : Text}
    (declared : declaredNames lines = name :: names) :
    ∃ first later, lines = first ++ later ∧ declaredNames first = [name] ∧
      declaredNames later = names := by
  induction lines with
  | nil => contradiction
  | cons line rest inductionHypothesis =>
      cases read : Declaration.ofLine? line with
      | none =>
          rw [declaredNames, List.filterMap_cons_none read] at declared
          obtain ⟨first, later, rfl, single, remaining⟩ := inductionHypothesis declared
          refine ⟨line :: first, later, rfl, ?_, remaining⟩
          rw [declaredNames, List.filterMap_cons_none read]
          exact single
      | some declaration =>
          rw [declaredNames, List.filterMap_cons_some read, List.map_cons, List.cons.injEq]
            at declared
          refine ⟨[line], rest, rfl, ?_, declared.2⟩
          rw [declaredNames, List.filterMap_cons_some read, List.map_cons, declared.1]
          rfl

section Run

variable (settings : Settings)

theorem update_append {block : Block} {state : Commit} {front lines : List Text}
    (held : state.lines = front ++ lines) (absent : Undeclared block.name front) :
    (∃ span, spanOf block.name lines settings.counting = .ok span ∧
      (state.update settings block).lines = front ++ (lines.take span.head ++
        (block.rewritten (lines.getD span.head []) settings ++ lines.drop (span.closing + 1)))) ∨
    (∀ span, spanOf block.name lines settings.counting ≠ .ok span) ∧
      (state.update settings block).lines = front ++ lines := by
  cases located : spanOf block.name state.lines settings.counting with
  | error cause =>
      right
      refine ⟨?_, (update_eq_of_error located).trans held⟩
      intro span found
      rw [held, (spanOf_append_left absent lines _).mpr ⟨span, found, rfl⟩] at located
      contradiction
  | ok span =>
      left
      have whole := located
      rw [held, spanOf_append_left absent] at whole
      rcases whole with ⟨own, found, rfl⟩
      have declaration : (front ++ lines).getD (own.head + front.length) [] =
          lines.getD own.head [] := by
        simp [List.getD_eq_getElem?_getD, List.getElem?_append_right]
      refine ⟨own, found, ?_⟩
      rw [update_eq_of_ok located, held, Span.shift]
      simp only [declaration]
      rw [Nat.add_comm own.head, List.take_length_add_append, Nat.add_right_comm,
        Nat.add_comm _ front.length, List.drop_length_add_append]
      simp

theorem exists_append_foldl_update {blocks : List Block} {state : Commit} {front lines : List Text}
    (held : state.lines = front ++ lines)
    (absent : ∀ block ∈ blocks, Undeclared block.name front) :
    ∃ rest, (blocks.foldl (Commit.update settings) state).lines = front ++ rest := by
  induction blocks generalizing state lines with
  | nil => exact ⟨lines, held⟩
  | cons block rest inductionHypothesis =>
      rw [List.forall_mem_cons] at absent
      rcases update_append settings held absent.1 with
        ⟨span, -, updated⟩ | ⟨-, updated⟩
      · exact inductionHypothesis updated absent.2
      · exact inductionHypothesis updated absent.2

end Run

theorem undeclared_of_declaredNames {name other : Text} (named : IsName name) {lines : List Text}
    (single : declaredNames lines = [other]) (different : name ≠ other) :
    Undeclared name lines := by
  rw [undeclared_iff named, single, List.mem_singleton]
  exact different

theorem declaredNames_located {counting : Counting} {name : Text} (named : IsName name)
    {lines names : List Text} {span : Span} (located : spanOf name lines counting = .ok span)
    (declared : declaredNames lines = name :: names) :
    declaredNames (lines.take span.head) = [] ∧
      ∃ covered, declaredNames (span.extract lines) = name :: covered ∧
        names = covered ++ declaredNames (lines.drop (span.closing + 1)) := by
  have whole := take_append_extract_append_drop located
  have front : declaredNames (lines.take span.head) = [] := by
    have absent := (undeclared_iff named).mp (undeclared_take_head located)
    rw [whole, declaredNames_append] at declared
    cases before : declaredNames (lines.take span.head) with
    | nil => rfl
    | cons first others =>
        rw [before, List.cons_append, List.cons.injEq] at declared
        rw [before, declared.1] at absent
        exact absurd List.mem_cons_self absent
  refine ⟨front, ?_⟩
  obtain ⟨header, rest, shape, declares⟩ := (isExtent_extract located).exists_header
  obtain ⟨declaration, read, same⟩ := (declares_iff named header).mp declares
  have covered : declaredNames (span.extract lines) = name :: declaredNames rest := by
    rw [shape, declaredNames, List.filterMap_cons_some read, List.map_cons, same]
    rfl
  rw [whole, declaredNames_append, declaredNames_append, front, covered, List.nil_append,
    List.cons_append, List.cons.injEq] at declared
  exact ⟨declaredNames rest, covered, declared.2.symm⟩

/-- Whether the lines of a save end in lines that declare the blocks still to be replaced, each of
them once, and what stands in front declares none of them. -/
structure Commit.Awaits (commit : Commit) (front lines : List Text) (blocks : List Block) :
    Prop where
  held : commit.lines = front ++ lines
  names : declaredNames lines = blocks.map Block.name
  distinct : (blocks.map Block.name).Nodup
  absent : ∀ block ∈ blocks, Undeclared block.name front

/-- Whether the first of the blocks to be replaced was left or written within lines that declare it
alone, so that the others are still to come. -/
def Commit.Passes (commit : Commit) (counting : Counting) (front lines : List Text) (block : Block)
    (rest : List Block) : Prop :=
  ∃ first written later, lines = first ++ later ∧ declaredNames first = [block.name] ∧
    (∀ span, spanOf block.name lines counting = .ok span →
      ∀ other ∈ declaredNames (span.extract lines), other = block.name) ∧
    ¬ Undeclared block.name written ∧ commit.Awaits (front ++ written) later rest

namespace Commit.Awaits

variable {settings : Settings} {state : Commit} {front lines : List Text} {block : Block}
  {rest : List Block} (awaits : state.Awaits front lines (block :: rest))

include awaits in
theorem name_ne {other : Block} (membership : other ∈ rest) : other.name ≠ block.name := by
  intro same
  exact (List.nodup_cons.mp awaits.distinct).1 (same ▸ List.mem_map_of_mem membership)

include awaits in
theorem advance {next : Commit} {first written later : List Text} (shape : lines = first ++ later)
    (single : declaredNames first = [block.name])
    (updated : next.lines = front ++ written ++ later)
    (clear : ∀ other ∈ rest, Undeclared other.name written) :
    next.Awaits (front ++ written) later rest where
  held := updated
  names := by
    have names := awaits.names
    rw [shape, declaredNames_append, single, List.map_cons, List.singleton_append,
      List.cons.injEq] at names
    exact names.2
  distinct := (List.nodup_cons.mp awaits.distinct).2
  absent := fun other membership => undeclared_append.mpr
    ⟨awaits.absent other (List.mem_cons_of_mem block membership), clear other membership⟩

include awaits in
/-- A declaration that a located block reaches over is lost when the block is replaced. -/
theorem undeclared_update (readable : settings.Readable)
    (writable : ∀ other ∈ block :: rest, other.Writable) {span : Span}
    (located : spanOf block.name lines settings.counting = .ok span)
    (updated : (state.update settings block).lines = front ++ (lines.take span.head ++
      (block.rewritten (lines.getD span.head []) settings ++ lines.drop (span.closing + 1))))
    {other : Block} (membership : other ∈ rest)
    (covered : other.name ∈ (declaredNames (span.extract lines)).tail) :
    Undeclared other.name (state.update settings block).lines := by
  rw [List.forall_mem_cons] at writable
  have otherNamed := (writable.2 other membership).named
  obtain ⟨frontNames, names, coveredNames, remaining⟩ :=
    declaredNames_located writable.1.named located awaits.names
  rw [coveredNames, List.tail_cons] at covered
  have distinct := (List.nodup_cons.mp awaits.distinct).2
  rw [remaining, List.nodup_append] at distinct
  rw [updated, undeclared_append, undeclared_append, undeclared_append]
  refine ⟨awaits.absent other (List.mem_cons_of_mem block membership), ?_,
    (undeclared_rewritten_iff readable otherNamed writable.1 _).mpr (awaits.name_ne membership), ?_⟩
  · rw [undeclared_iff otherNamed, frontNames]
    exact List.not_mem_nil
  · rw [undeclared_iff otherNamed]
    exact fun again => distinct.2.2 _ covered _ again rfl

include awaits in
theorem passes_of_unlocated (writable : ∀ other ∈ block :: rest, other.Writable)
    (unlocated : ∀ span, spanOf block.name lines settings.counting ≠ .ok span)
    {next : Commit} (unchanged : next.lines = front ++ lines) :
    next.Passes settings.counting front lines block rest := by
  rw [List.forall_mem_cons] at writable
  obtain ⟨first, later, shape, single, -⟩ := exists_split_of_declaredNames awaits.names
  rw [shape, ← List.append_assoc] at unchanged
  refine ⟨first, first, later, shape, single, ?_, ?_, awaits.advance shape single unchanged ?_⟩
  · intro span located
    exact absurd located (unlocated span)
  · rw [undeclared_iff writable.1.named, single]
    simp
  · intro other membership
    exact undeclared_of_declaredNames (writable.2 other membership).named single
      (awaits.name_ne membership)

include awaits in
theorem passes_of_alone (readable : settings.Readable)
    (writable : ∀ other ∈ block :: rest, other.Writable) {span : Span}
    (located : spanOf block.name lines settings.counting = .ok span)
    (frontNames : declaredNames (lines.take span.head) = [])
    (alone : declaredNames (span.extract lines) = [block.name]) {next : Commit}
    (updated : next.lines = front ++ (lines.take span.head ++
      (block.rewritten (lines.getD span.head []) settings ++ lines.drop (span.closing + 1)))) :
    next.Passes settings.counting front lines block rest := by
  rw [List.forall_mem_cons] at writable
  have frontClear : ∀ {name}, IsName name → Undeclared name (lines.take span.head) := by
    intro name named
    rw [undeclared_iff named, frontNames]
    exact List.not_mem_nil
  have rewritten := fun {name : Text} (named : IsName name) =>
    undeclared_rewritten_iff readable named writable.1 (lines.getD span.head [])
  have whole := take_append_extract_append_drop located
  rw [← List.append_assoc] at whole
  have single : declaredNames (lines.take span.head ++ span.extract lines) = [block.name] := by
    rw [declaredNames_append, frontNames, alone]
    rfl
  rw [← List.append_assoc (lines.take span.head), ← List.append_assoc] at updated
  refine ⟨_, _, _, whole, single, ?_, ?_, awaits.advance whole single updated ?_⟩
  · intro other otherLocated
    rw [located] at otherLocated
    cases otherLocated
    simp [alone]
  · rw [undeclared_append, rewritten writable.1.named]
    simp
  · intro other membership
    have named := (writable.2 other membership).named
    exact undeclared_append.mpr ⟨frontClear named,
      (rewritten named).mpr (awaits.name_ne membership)⟩

include awaits in
/-- What becomes of the first block: either it is left or written within lines that declare it alone,
or it is located over the declaration of another block, which is lost. -/
theorem update_cases (readable : settings.Readable)
    (writable : ∀ other ∈ block :: rest, other.Writable) :
    (state.update settings block).Passes settings.counting front lines block rest ∨
      ∃ other ∈ rest, ∃ span, spanOf block.name lines settings.counting = .ok span ∧
        other.name ∈ declaredNames (span.extract lines) ∧
        Undeclared other.name (state.update settings block).lines := by
  rcases update_append settings awaits.held (awaits.absent block List.mem_cons_self) with
    ⟨span, located, updated⟩ | ⟨unlocated, unchanged⟩
  · have named := (List.forall_mem_cons.mp writable).1.named
    obtain ⟨frontNames, covered, coveredNames, remaining⟩ :=
      declaredNames_located named located awaits.names
    cases covered with
    | nil => exact .inl (awaits.passes_of_alone readable writable located frontNames coveredNames
        updated)
    | cons lost others =>
        right
        have present : lost ∈ rest.map Block.name := by
          rw [remaining]
          exact List.mem_cons_self
        obtain ⟨other, membership, rfl⟩ := List.mem_map.mp present
        refine ⟨other, membership, span, located, by simp [coveredNames], ?_⟩
        exact awaits.undeclared_update readable writable located updated membership
          (by simp [coveredNames])
  · exact .inl (awaits.passes_of_unlocated writable unlocated unchanged)

end Commit.Awaits

/-- Where every name is declared once, replacing all blocks in order keeps all names exactly if no
located block reaches over a declaration of another. -/
theorem declared_foldl_update_iff {settings : Settings} (readable : settings.Readable)
    {blocks : List Block} (writable : ∀ block ∈ blocks, block.Writable) {state : Commit}
    {front lines : List Text} (awaits : state.Awaits front lines blocks) :
    (∀ block ∈ blocks,
        ¬ Undeclared block.name (blocks.foldl (Commit.update settings) state).lines) ↔
      BlocksSeparate settings.counting lines := by
  induction blocks generalizing state front lines with
  | nil =>
      have names := awaits.names
      rw [List.map_nil] at names
      simp [BlocksSeparate, names]
  | cons block rest inductionHypothesis =>
      have others := (List.forall_mem_cons.mp writable).2
      rcases awaits.update_cases readable writable with
        ⟨first, written, later, rfl, single, own, kept, next⟩ |
          ⟨other, membership, span, located, covered, gone⟩
      · have firstAbsent : ∀ name ∈ declaredNames later, Undeclared name first := by
          rw [next.names]
          intro name membership
          obtain ⟨other, present, rfl⟩ := List.mem_map.mp membership
          exact undeclared_of_declaredNames (others other present).named single
            (awaits.name_ne present)
        obtain ⟨after, result⟩ := exists_append_foldl_update settings next.held next.absent
        rw [blocksSeparate_append_iff single firstAbsent own, ← inductionHypothesis others next,
          List.forall_mem_cons, List.foldl_cons]
        -- What was written for the first block stays in front of all that follows.
        refine and_iff_right ?_
        rw [result, undeclared_append, undeclared_append]
        exact fun lost => kept lost.1.2
      · constructor
        · intro survive
          have lost := (undeclared_foldl_update_iff readable (others other membership).named others
            (state.update settings block)).mpr (.inl gone)
          exact absurd lost (survive other (List.mem_cons_of_mem block membership))
        · intro separate
          have declared : block.name ∈ declaredNames lines := by
            rw [awaits.names]
            exact List.mem_cons_self
          exact absurd (separate block.name declared span located other.name covered)
            (awaits.name_ne membership)

theorem writable_of_mem_ofLines {lines : List Text} {block : Block}
    (present : block ∈ (Outline.ofLines lines).blocks) : block.Writable where
  named := isName_of_mem_declaredNames (mem_names_ofLines.mp (List.mem_map_of_mem present))
  entries := fun entry membership _ => (isRead_of_mem_ofLines present entry membership).1

theorem map_name_ofLines {lines : List Text} (distinct : (declaredNames lines).Nodup) :
    (Outline.ofLines lines).blocks.map Block.name = declaredNames lines := by
  rw [← names_declaredIn] at distinct
  rw [← names_declaredIn, Outline.ofLines, Reading.outline, blocks_ofBlocks]
  · rfl
  · exact distinct

/-- A save without edits keeps a declared name exactly if no replacement loses it for good, which
for the names that can be read is to say, if none loses it. Where every name is declared once, all
of these are kept exactly if in the lines before the save no located block reaches over a
declaration of another. -/
theorem declared_commit_unedited {settings : Settings} (readable : settings.Readable)
    (lines : List Text) :
    (∀ name, (headLine? name lines).isSome = true →
      ((headLine? name
          (commit lines (Outline.ofLines lines) {} settings none).lines).isSome = true ↔
        ¬ Lost settings (Commit.start lines) (Outline.ofLines lines).blocks name)) ∧
      (∀ name, IsName name → (headLine? name lines).isSome = true →
        ((headLine? name
            (commit lines (Outline.ofLines lines) {} settings none).lines).isSome = true ↔
          ∀ before block after, (Outline.ofLines lines).blocks = before ++ block :: after →
            ¬ Loses settings
              (before.foldl (Commit.update settings) (Commit.start lines)).lines block name)) ∧
      ((declaredNames lines).Nodup →
        ((∀ name, IsName name → (headLine? name lines).isSome = true →
            (headLine? name
              (commit lines (Outline.ofLines lines) {} settings none).lines).isSome = true) ↔
          BlocksSeparate settings.counting lines)) := by
  have writable : ∀ block ∈ (Outline.ofLines lines).blocks, block.Writable :=
    fun block membership => writable_of_mem_ofLines membership
  simp only [isSome_headLine?_iff, commit_unedited]
  refine ⟨?_, ?_, ?_⟩
  · intro name declared
    rw [undeclared_foldl_update_iff_lost declared]
  · intro name named declared
    rw [undeclared_foldl_update_iff readable named writable]
    constructor
    · intro kept before block after place lost
      exact kept (.inr ⟨before, block, after, place, lost⟩)
    · rintro keeps (absent | ⟨before, block, after, place, lost⟩)
      · exact declared absent
      · exact keeps before block after place lost
  · intro distinct
    have names := map_name_ofLines distinct
    have start : (Commit.start lines).Awaits [] lines (Outline.ofLines lines).blocks :=
      ⟨rfl, names.symm, Outline.distinct _,
        fun _ _ line membership => absurd membership List.not_mem_nil⟩
    rw [← declared_foldl_update_iff readable writable start]
    constructor
    · intro keeps block membership
      have named := (writable block membership).named
      refine keeps block.name named ?_
      rw [undeclared_iff named, ← names, not_not]
      exact List.mem_map_of_mem membership
    · intro keeps name named declared
      rw [undeclared_iff named, ← names, not_not] at declared
      obtain ⟨block, membership, rfl⟩ := List.mem_map.mp declared
      exact keeps block membership

def danglingLines : List Text :=
  [['e', 'n', 'u', 'm', ' ', 'A'], ['e', 'n', 'u', 'm', ' ', 'B', '{', 'X', '}']]

theorem declared_commit_danglingLines :
    (headLine? ['B'] danglingLines).isSome = true ∧
      (headLine? ['B']
          (commit danglingLines (Outline.ofLines danglingLines) {} {} none).lines).isSome =
        false := by
  have found : (headLine? ['B'] danglingLines).isSome = true := rfl
  have named : IsName ['B'] := by decide
  have writable : Block.Writable ⟨['A'], []⟩ := ⟨by decide, by simp⟩
  have covers : Span.Covers ⟨0, 1, 1⟩ ['B'] danglingLines :=
    ⟨by simp [Undeclared], by simp [Undeclared, danglingLines]⟩
  have lost : Loses {} danglingLines ⟨['A'], []⟩ ['B'] :=
    ⟨⟨0, 1, 1⟩, rfl, covers,
      (undeclared_rewritten_iff Settings.readable_default named writable _).mpr (by decide)⟩
  have condition := (declared_commit_unedited Settings.readable_default danglingLines).2.1 ['B']
    named found
  refine ⟨found, ?_⟩
  rw [Bool.eq_false_iff]
  intro kept
  exact condition.mp kept [] ⟨['A'], []⟩ _ rfl lost

end EnumBlocks
