import EnumBlocks.Proofs.EntryList
import EnumBlocks.Proofs.Heading
import EnumBlocks.Proofs.Outline

/-!
How the entries of a block may be spread over its lines. All of them may stand on the line of the
declaration, or the first of them, or none; any number may stand on each line that follows, and the
last of them in front of the closing brace. In every layout the block is read with the same entries in
the same order.
-/

namespace EnumBlocks

/-- The lines of a body behind its opening brace, with the groups of entries that stand on them: one
group a line, and the closing brace behind the last group or on a line of its own. -/
inductive ClosedBody : List (List Entry) → List Text → Prop where
  | alone {indent : Text} (blank : Text.isBlankText indent = true) : ClosedBody [] [indent ++ ['}']]
  | last {entries : List Entry} {text : Text} (list : ListText entries text) :
      ClosedBody [entries] [text ++ ['}']]
  | group {entries : List Entry} {text : Text} {groups : List (List Entry)} {lines : List Text}
      (list : ListText entries text) (rest : ClosedBody groups lines) :
      ClosedBody (entries :: groups) (text :: lines)

/-- The ways to lay out a block: on one line, with the opening brace behind the declaration or on the
next line, or with the first group behind the opening brace. -/
inductive BodyLayout (header : Text) : List (List Entry) → List Text → Prop where
  | oneLine {groups : List (List Entry)} {text : Text} (list : ListText groups.flatten text) :
      BodyLayout header groups [header ++ ' ' :: '{' :: (text ++ ['}'])]
  | behind {groups : List (List Entry)} {lines : List Text} (body : ClosedBody groups lines) :
      BodyLayout header groups ((header ++ ' ' :: '{' :: []) :: lines)
  | below {indent : Text} {groups : List (List Entry)} {lines : List Text}
      (blank : Text.isBlankText indent = true) (body : ClosedBody groups lines) :
      BodyLayout header groups (header :: (indent ++ ['{']) :: lines)
  | first {entries : List Entry} {text : Text} {groups : List (List Entry)} {lines : List Text}
      (list : ListText entries text) (body : ClosedBody groups lines) :
      BodyLayout header (entries :: groups) ((header ++ ' ' :: '{' :: text) :: lines)

namespace ListText

variable {entries : List Entry} (listed : ∀ entry ∈ entries, entry.Listed) {text : Text}
  (list : ListText entries text)

section Line

variable {rest : Text}
  (ended : ∀ c ∈ rest.head?, Text.isBlank c = false ∧ Text.isWord c = false)

include list ended in
theorem exists_name_append :
    ∃ entry ∈ entries, ∃ before gap behind, Text.isBlankText before = true ∧
      Text.isBlankText gap = true ∧
      (∀ c ∈ behind.head?, Text.isBlank c = false ∧ Text.isWord c = false) ∧
      text ++ rest = before ++ (entry.name ++ (gap ++ behind)) := by
  obtain ⟨entry, membership, before, gap, behind, beforeBlank, gapBlank, sign, rfl⟩ :=
    list.exists_name
  refine ⟨entry, membership, before, gap, behind ++ rest, beforeBlank, gapBlank, ?_, by simp⟩
  cases behind with
  | nil => exact ended
  | cons c tail =>
      rintro mark ⟨⟩
      rcases sign c rfl with rfl | rfl <;> decide

include listed list ended in
theorem ofLine?_append : Declaration.ofLine? (text ++ rest) = none := by
  obtain ⟨entry, membership, before, gap, behind, beforeBlank, gapBlank, marked, whole⟩ :=
    list.exists_name_append ended
  rw [whole]
  exact ofLine?_eq_none_of_word (listed entry membership).plain.named beforeBlank gapBlank marked

include listed list ended in
theorem isDirective_append : isDirective (Text.strip (text ++ rest)) = false := by
  obtain ⟨entry, membership, before, gap, behind, beforeBlank, gapBlank, marked, whole⟩ :=
    list.exists_name_append ended
  have plain := (listed entry membership).plain
  rw [whole, Text.strip_indent_append beforeBlank, strip_name_append plain.named]
  refine isDirective_name_append plain.named ?_ plain.notUsing plain.notImport
  intro c first
  exact not_isWord_head_blank_append gapBlank (fun mark behind => (marked mark behind).2) c
    (Text.mem_head?_of_stripEnd first)

end Line

include listed list in
theorem netBraces_eq_zero : netBraces text = 0 :=
  EnumBlocks.netBraces_eq_zero (braceless_codeOf (list.plain listed).2.2)

include listed list in
theorem classify_eq {depth bodyDepth : Int} (inside : bodyDepth < depth) :
    BodyLine.classify text depth bodyDepth = .entries entries := by
  obtain ⟨-, slashless, braceless⟩ := list.plain listed
  have written := list.isBlankText_eq_false listed
  have ordinary : ¬ (Text.strip text = [] ∨ ['/', '/'] <+: Text.strip text ∨
      Text.strip text = ['{']) := by
    rintro (empty | comment | brace)
    · exact Text.strip_ne_nil written empty
    · exact slashless (Text.mem_of_mem_strip (comment.subset List.mem_cons_self))
    · exact braceless.1 (Text.mem_of_mem_strip (by rw [brace]; exact List.mem_cons_self))
  have read := (list.strip listed).lineEntries_eq listed
  rw [BodyLine.classify, if_neg (by omega), if_neg ordinary, read]
  cases list <;> rfl

include listed list in
theorem codeOf_closing : codeOf (text ++ ['}']) = text ++ ['}'] := by
  obtain ⟨unquoted, slashless, -⟩ := list.plain listed
  apply codeOf_eq_self
  · simpa [quotationMark] using unquoted
  · simpa using slashless

include listed list in
theorem classify_closing (depth : Int) :
    BodyLine.classify (text ++ ['}']) depth depth = .closing entries := by
  have stripped : Text.strip (text ++ ['}']) = Text.dropBlank text ++ ['}'] :=
    Text.strip_append_cons (by decide) text []
  have code := (list.dropBlank listed).codeOf_closing listed
  have before : Text.beforeFirst '}' (Text.dropBlank text ++ ['}']) = Text.dropBlank text := by
    have different : ∀ c ∈ Text.dropBlank text, decide (c ≠ '}') = true := by
      intro c membership
      rw [decide_eq_true_eq]
      rintro rfl
      exact ((list.dropBlank listed).plain listed).2.2.2 membership
    rw [Text.beforeFirst, List.takeWhile_append_of_pos different,
      List.takeWhile_cons_of_neg (by decide), List.append_nil]
  have written := Text.strip_ne_nil (list.isBlankText_eq_false listed)
  have read := (list.strip listed).lineEntries_eq listed
  rw [BodyLine.classify, stripped, code, before, Text.strip_dropBlank, if_pos (Int.le_refl _),
    if_pos (by simp)]
  simp only [if_neg written, read]

include listed list in
theorem netBraces_closing : netBraces (text ++ ['}']) = -1 := by
  obtain ⟨-, -, braceless⟩ := list.plain listed
  have opens : text.count '{' = 0 := List.count_eq_zero_of_not_mem braceless.1
  have closes : text.count '}' = 0 := List.count_eq_zero_of_not_mem braceless.2
  rw [netBraces, openCount, closeCount, list.codeOf_closing listed, List.count_append,
    List.count_append, opens, closes]
  rfl

include listed list in
theorem braceEntries_eq : braceEntries (Text.strip ('{' :: text)) = entries := by
  have trimmed := list.stripEnd listed
  obtain ⟨unquoted, slashless, -⟩ := trimmed.plain listed
  have level := list.netBraces_eq_zero listed
  have code : codeOf (Text.strip ('{' :: text)) = '{' :: Text.stripEnd text := by
    rw [Text.strip_cons (by decide), codeOf_brace_cons, codeOf_eq_self unquoted slashless]
  have body : inlineBody (Text.strip ('{' :: text)) false = Text.stripEnd text := by
    rw [inlineBody, code]
    simp [Text.afterFirst]
  rw [braceEntries, netBraces_strip, netBraces_brace_cons, level]
  exact (congrArg (inlineEntries · |>.1) body).trans (trimmed.inlineEntries_eq listed)

include listed list in
theorem braceEntries_closing : braceEntries (Text.strip ('{' :: (text ++ ['}']))) = entries := by
  have level := list.netBraces_closing listed
  have code : codeOf (Text.strip ('{' :: (text ++ ['}']))) = '{' :: (text ++ ['}']) := by
    rw [Text.strip_cons (by decide), Text.stripEnd_append_cons (by decide)]
    exact (codeOf_brace_cons _).trans (congrArg _ (list.codeOf_closing listed))
  have body : inlineBody (Text.strip ('{' :: (text ++ ['}']))) true = text := by
    rw [inlineBody, code]
    simp [Text.afterFirst, Text.beforeLast]
  rw [braceEntries, netBraces_strip, netBraces_brace_cons, level]
  exact (congrArg (inlineEntries · |>.1) body).trans (list.inlineEntries_eq listed)

end ListText

namespace Reading

/-- The lines of a body behind its opening brace add their entries to the block and close it. -/
theorem IsInside.declared_run_closedBody {block : Block} {reading : Reading}
    (inside : reading.IsInside block 1) {groups : List (List Entry)} {lines : List Text}
    (listed : ∀ entries ∈ groups, ∀ entry ∈ entries, entry.Listed)
    (body : ClosedBody groups lines) (number : Nat) :
    (reading.run number lines).declared = [block.append groups.flatten] := by
  induction body generalizing block reading number with
  | alone blank =>
      have closed := inside.step number (ofLine?_brace blank (.inr rfl))
        (isDirective_brace blank (.inr rfl))
      have level : (1 : Int) + -1 = 0 := rfl
      rw [netBraces_closingBrace blank, level, classify_closingBrace blank] at closed
      exact closed.2.1
  | last list =>
      rw [List.forall_mem_singleton] at listed
      have ended : ∀ c ∈ (['}'] : Text).head?, Text.isBlank c = false ∧ Text.isWord c = false := by
        simp only [List.head?_cons, Option.mem_some_iff, forall_eq']
        decide
      have closed := inside.step number (list.ofLine?_append listed ended)
        (list.isDirective_append listed ended)
      have level : (1 : Int) + -1 = 0 := rfl
      rw [list.netBraces_closing listed, level, list.classify_closing listed] at closed
      rw [List.flatten_singleton]
      exact closed.2.1
  | @group entries text groups lines list rest inductionHypothesis =>
      rw [List.forall_mem_cons] at listed
      have ended : ∀ c ∈ ([] : Text).head?, Text.isBlank c = false ∧ Text.isWord c = false := by
        simp
      have plain := list.ofLine?_append listed.1 ended
      have ordinary := list.isDirective_append listed.1 ended
      rw [List.append_nil] at plain ordinary
      have level : (1 : Int) + 0 = 1 := rfl
      have next := inside.step_open number plain ordinary
      rw [list.netBraces_eq_zero listed.1, level, list.classify_eq listed.1 (by decide)] at next
      rw [Reading.run, inductionHypothesis (next rfl) listed.2]
      simp [Block.append, BodyLine.added]

variable {name header : Text} (heading : IsHeading name header)

include heading in
theorem isInside_heading_brace {rest : Text} (opened : netBraces ('{' :: rest) = 1) :
    (Reading.step {} 1 (header ++ ' ' :: '{' :: rest)).IsInside
      ⟨name, braceEntries (Text.strip ('{' :: rest))⟩ 1 := by
  obtain ⟨depth, declared, scopes⟩ := step_heading_brace heading {} 1 rest
  rw [opened] at depth scopes
  exact ⟨depth, declared, scopes⟩

include heading in
theorem declared_ofLines_bodyLayout {groups : List (List Entry)} {lines : List Text}
    (listed : ∀ entries ∈ groups, ∀ entry ∈ entries, entry.Listed)
    (layout : BodyLayout header groups lines) :
    (ofLines lines).declared = [⟨name, groups.flatten⟩] := by
  cases layout with
  | @oneLine groups text list =>
      have each : ∀ entry ∈ groups.flatten, entry.Listed := by
        intro entry membership
        obtain ⟨entries, group, inside⟩ := List.mem_flatten.mp membership
        exact listed entries group entry inside
      have declared := (step_heading_brace heading {} 1 (text ++ ['}'])).2.1
      rw [list.braceEntries_closing each] at declared
      exact declared
  | behind body =>
      have opened : netBraces ['{'] = 1 := by decide
      have inside := isInside_heading_brace heading opened
      exact inside.declared_run_closedBody listed body _
  | below blank body =>
      obtain ⟨depth, declared, scopes⟩ := step_heading heading {} 1
      have headed : (Reading.step {} 1 header).IsInside ⟨name, []⟩ 0 := ⟨depth, declared, scopes⟩
      have opened := headed.step_open (1 + 1) (ofLine?_brace blank (.inl rfl))
        (isDirective_brace blank (.inl rfl))
      rw [netBraces_openingBrace blank, classify_openingBrace blank (by decide)] at opened
      exact (opened rfl).declared_run_closedBody listed body _
  | first list body =>
      rw [List.forall_mem_cons] at listed
      have level := list.netBraces_eq_zero listed.1
      have inside := isInside_heading_brace heading (by rw [netBraces_brace_cons, level]; rfl)
      rw [list.braceEntries_eq listed.1] at inside
      exact inside.declared_run_closedBody listed.2 body _

end Reading

/-- However the entries of a block are spread over its lines, the document is read as this one block
with these entries in order; and the keyword with any name is a declaration to begin with. -/
theorem blocks_ofLines_bodyLayout :
    (∀ name, IsName name → IsHeading name (enumKeyword ++ ' ' :: name)) ∧
      ∀ (name header : Text) (groups : List (List Entry)) (lines : List Text),
        IsHeading name header → (∀ entries ∈ groups, ∀ entry ∈ entries, entry.Listed) →
          BodyLayout header groups lines →
            (Outline.ofLines lines).blocks = [⟨name, groups.flatten⟩] := by
  refine ⟨fun name named => isHeading_enumKeyword named, ?_⟩
  intro name header groups lines heading listed layout
  have declared := Reading.declared_ofLines_bodyLayout heading listed layout
  rw [Outline.ofLines, Reading.outline, declared]
  exact blocks_ofBlocks (by simp)

/-- Two entries behind the opening brace, and one in front of the closing brace. -/
theorem blocks_ofLines_bodyLayout_threeEntries :
    (Outline.ofLines
        [['e', 'n', 'u', 'm', ' ', 'A', ' ', '{', ' ', 'X', ',', ' ', 'Y', ' ', '=', ' ', '2', ','],
         ['Z', ' ', '}']]).blocks =
      [⟨['A'], [⟨['X'], [], []⟩, ⟨['Y'], ['2'], []⟩, ⟨['Z'], [], []⟩]⟩] := by
  have bare : Entry.SpelledAs ⟨['X'], [], []⟩ [' ', 'X'] :=
    @Entry.SpelledAs.bare ⟨['X'], [], []⟩ [' '] [] rfl (by decide) rfl
  have valued : Entry.SpelledAs ⟨['Y'], ['2'], []⟩ [' ', 'Y', ' ', '=', ' ', '2'] :=
    @Entry.SpelledAs.valued ⟨['Y'], ['2'], []⟩ [' '] [' '] [' '] [] (by decide) (by decide)
      (by decide) (by decide) rfl
  have last : Entry.SpelledAs ⟨['Z'], [], []⟩ ['Z', ' '] :=
    @Entry.SpelledAs.bare ⟨['Z'], [], []⟩ [] [' '] rfl rfl (by decide)
  have two : ListText [⟨['X'], [], []⟩, ⟨['Y'], ['2'], []⟩]
      [' ', 'X', ',', ' ', 'Y', ' ', '=', ' ', '2', ','] :=
    .cons bare (.ended valued rfl)
  have layout := @BodyLayout.first (enumKeyword ++ [' ', 'A']) _ _ _ _ two (.last (.single last))
  have heading := blocks_ofLines_bodyLayout.1 ['A'] (by decide)
  exact blocks_ofLines_bodyLayout.2 ['A'] _ _ _ heading (by decide) layout

end EnumBlocks
