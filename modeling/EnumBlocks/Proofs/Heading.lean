import EnumBlocks.Proofs.BlockText

/-!
Declarations that go on behind the name. Whatever follows on the line, the same enum is declared,
and as long as the declaration itself has no brace, no comment and no open quotation, what follows is
cut and counted as if it stood on a line of its own.
-/

namespace EnumBlocks

theorem splitAttributes_append_of_cons {c : Char} (unbracketed : c ≠ '[') (rest line more : Text) :
    ((splitAttributes none line).2 = c :: rest →
        (splitAttributes none (line ++ more)).2 = c :: rest ++ more) ∧
      ∀ held, (splitAttributes (some (held ++ ['['])) line).2 = c :: rest →
        (splitAttributes (some (held ++ ['['])) (line ++ more)).2 = c :: rest ++ more := by
  induction line with
  | nil =>
      constructor
      · intro impossible
        contradiction
      · intro held unclosed
        rw [splitAttributes, List.reverse_append] at unclosed
        exact absurd (List.cons.inj unclosed).1.symm unbracketed
  | cons d tail inductionHypothesis =>
      constructor
      · intro ended
        rw [splitAttributes] at ended
        rw [List.cons_append, splitAttributes]
        split at ended
        · rename_i blank
          rw [if_pos blank]
          exact inductionHypothesis.1 ended
        · rename_i mark
          rw [if_neg mark]
          split at ended
          · rename_i bracket
            rw [if_pos bracket]
            exact inductionHypothesis.2 [] ended
          · rename_i other
            rw [if_neg other, ← ended]
            rfl
      · intro held ended
        rw [splitAttributes] at ended
        rw [List.cons_append, splitAttributes]
        split at ended
        · rename_i closing
          rw [if_pos closing]
          exact inductionHypothesis.1 ended
        · rename_i other
          rw [if_neg other]
          exact inductionHypothesis.2 (d :: held) ended

theorem dropModifiers_append_of_blank {held text : Text}
    (unbroken : ∀ c ∈ held, Text.isBlank c = false)
    (stopped : ∃ c ∈ dropModifiers held text, Text.isBlank c = true) (more : Text) :
    dropModifiers held (text ++ more) = dropModifiers held text ++ more := by
  induction text generalizing held with
  | nil =>
      obtain ⟨c, membership, blank⟩ := stopped
      rw [dropModifiers, List.mem_reverse] at membership
      rw [unbroken c membership] at blank
      contradiction
  | cons c rest inductionHypothesis =>
      rw [dropModifiers] at stopped ⊢
      rw [List.cons_append, dropModifiers]
      split
      · rename_i blank
        rw [if_pos blank] at stopped
        split
        · rename_i modifier
          rw [if_pos modifier] at stopped
          exact inductionHypothesis (by simp) stopped
        · simp
      · rename_i mark
        rw [if_neg mark] at stopped
        refine inductionHypothesis ?_ stopped
        rw [List.forall_mem_cons]
        exact ⟨by simpa using mark, unbroken⟩

theorem afterKeyword?_append {line rest : Text} (keyword : afterKeyword? line = some rest)
    (separated : Text.indentOf rest ≠ []) (more : Text) :
    afterKeyword? (line ++ more) = some (rest ++ more) := by
  rw [afterKeyword?_eq_some_iff] at keyword ⊢
  obtain ⟨blank, membership⟩ := List.exists_mem_of_ne_nil _ separated
  have isBlank : Text.isBlank blank = true :=
    Text.isBlankText_iff.mp (Text.isBlankText_indentOf rest) blank membership
  have stopped : ∃ c ∈ dropModifiers [] (splitAttributes none line).2, Text.isBlank c = true := by
    refine ⟨blank, ?_, isBlank⟩
    rw [keyword]
    exact List.mem_append_right _ ((List.takeWhile_prefix Text.isBlank).subset membership)
  cases remainder : (splitAttributes none line).2 with
  | nil =>
      rw [remainder] at keyword
      contradiction
  | cons c tail =>
      have unbracketed : c ≠ '[' := by
        rintro rfl
        rw [remainder, dropModifiers, if_neg (by decide)] at keyword
        obtain ⟨others, equality⟩ := exists_dropModifiers_held (List.mem_singleton_self '[')
          (by decide) tail
        rw [equality] at keyword
        exact absurd (List.cons.inj keyword).1 (by decide)
      rw [(splitAttributes_append_of_cons unbracketed tail line more).1 remainder, ← remainder,
        dropModifiers_append_of_blank (by simp) stopped, keyword, List.append_assoc]

theorem takeWhile_dropBlank_append {text : Text}
    (written : (Text.dropBlank text).takeWhile Text.isWord ≠ []) {c : Char}
    (ended : Text.isWord c = false) (rest : Text) :
    Text.indentOf (text ++ c :: rest) = Text.indentOf text ∧
      (Text.dropBlank (text ++ c :: rest)).takeWhile Text.isWord =
        (Text.dropBlank text).takeWhile Text.isWord := by
  have indent := Text.isBlankText_indentOf text
  have whole := Text.indentOf_append_dropBlank text
  cases shape : Text.dropBlank text with
  | nil => simp [shape] at written
  | cons d tail =>
      have mark : Text.isBlank d = false := by
        rw [shape] at written
        by_contra blank
        exact written (List.takeWhile_cons_of_neg
          (by simp [Text.not_isWord_of_isBlank (by simpa using blank)]))
      rw [shape] at whole
      have longer : text ++ c :: rest = Text.indentOf text ++ d :: (tail ++ c :: rest) := by
        conv_lhs => rw [← whole]
        simp
      rw [longer, Text.indentOf_append indent, Text.indentOf_cons mark, List.append_nil,
        Text.dropBlank_append indent, Text.dropBlank_cons mark, ← List.cons_append,
        List.takeWhile_append]
      refine ⟨rfl, ?_⟩
      split
      · rename_i same
        rw [List.takeWhile_cons_of_neg (by simp [ended]), List.append_nil]
        exact ((List.takeWhile_prefix _).eq_of_length same).symm
      · rfl

/-- A line that reads as a declaration declares the same name when it goes on behind it. -/
theorem ofLine?_append {line : Text} {declaration : Declaration}
    (read : Declaration.ofLine? line = some declaration) {c : Char} (ended : Text.isWord c = false)
    (rest : Text) :
    ∃ longer, Declaration.ofLine? (line ++ c :: rest) = some longer ∧
      longer.name = declaration.name := by
  obtain ⟨after, keyword, separated, written, rfl⟩ := ofLine?_eq_some_iff.mp read
  obtain ⟨indent, name⟩ := takeWhile_dropBlank_append written ended rest
  refine ⟨_, ofLine?_eq_some_iff.mpr
    ⟨_, afterKeyword?_append keyword separated (c :: rest), ?_, ?_, rfl⟩, name⟩
  · rw [indent]
    exact separated
  · rw [name]
    exact written

/-- Where two slashes behind a text would begin a comment, what follows it after a blank is split at
its own comment. -/
theorem splitCommentFrom_append_of_complete {text : Text} {quoted escaped : Bool}
    (complete : (splitCommentFrom quoted escaped (text ++ commentMark)).1 = text) {c : Char}
    (blank : Text.isBlank c = true) (rest : Text) :
    (splitCommentFrom quoted escaped (text ++ c :: rest)).1 = text ++ c :: codeOf rest := by
  induction text generalizing quoted escaped with
  | nil =>
      have unquoted : quoted = false := by
        cases quoted with
        | false => rfl
        | true => simp [commentMark, splitCommentFrom, quotationMark] at complete
      rw [unquoted, List.nil_append, splitCommentFrom_blank_cons blank]
      rfl
  | cons d tail inductionHypothesis =>
      have second : (tail ++ c :: rest).head? = some '/' →
          (tail ++ commentMark).head? = some '/' := by
        cases tail with
        | nil => exact fun _ => rfl
        | cons e others => exact id
      rw [List.cons_append, splitCommentFrom] at complete
      rw [List.cons_append, splitCommentFrom]
      split at complete
      · rename_i mark
        rw [if_pos mark]
        exact congrArg _ (inductionHypothesis (List.cons.inj complete).2)
      · rename_i unmarked
        rw [if_neg unmarked]
        split at complete
        · contradiction
        · rename_i noSlash
          rw [if_neg fun slash => noSlash ⟨slash.1, slash.2.1, second slash.2.2⟩]
          exact congrArg _ (inductionHypothesis (List.cons.inj complete).2)

theorem codeOf_brace_cons (rest : Text) : codeOf ('{' :: rest) = '{' :: codeOf rest := by
  rw [codeOf, splitComment, splitCommentFrom, if_neg (by decide),
    if_neg fun slash => absurd slash.1 (by decide)]
  rfl

theorem netBraces_brace_cons (rest : Text) : netBraces ('{' :: rest) = 1 + netBraces rest := by
  have opens : openCount ('{' :: rest) = openCount rest + 1 := by
    rw [openCount, codeOf_brace_cons, List.count_cons_self, openCount]
  have closes : closeCount ('{' :: rest) = closeCount rest := by
    rw [closeCount, codeOf_brace_cons, List.count_cons_of_ne (by decide), closeCount]
  rw [netBraces, netBraces, opens, closes]
  omega

theorem openCount_brace_cons (rest : Text) : 0 < openCount ('{' :: rest) := by
  rw [openCount, codeOf_brace_cons, List.count_cons_self]
  exact Nat.succ_pos _

theorem afterFirst_append {mark : Char} {front : Text} (absent : mark ∉ front) (text : Text) :
    Text.afterFirst mark (front ++ text) = Text.afterFirst mark text := by
  rw [Text.afterFirst, Text.afterFirst, List.dropWhile_append_of_pos]
  intro c membership
  rw [decide_eq_true_eq]
  rintro rfl
  exact absent membership

/-- The entries that a declaration takes from its own line, behind the opening brace. -/
def braceEntries (line : Text) : List Entry :=
  (inlineEntries (inlineBody line (decide (netBraces line ≤ 0)))).1

theorem Reading.declared_declare {line : Text} (opened : 0 < openCount line) (reading : Reading)
    (number : Nat) (name : Text) :
    (reading.declare number line name).declared =
      reading.declared ++ [⟨name, braceEntries line⟩] := by
  simp [Reading.declare, braceEntries, opened]

/-- Whether a line declares an enum of a name and has nothing that could reach further: no brace, no
comment, and no quotation that is left open. -/
structure IsHeading (name header : Text) : Prop where
  read : (Declaration.ofLine? header).map Declaration.name = some name
  braceless : Braceless header
  complete : codeOf (header ++ commentMark) = header

instance (name header : Text) : Decidable (IsHeading name header) :=
  decidable_of_iff ((Declaration.ofLine? header).map Declaration.name = some name ∧
      Braceless header ∧ codeOf (header ++ commentMark) = header)
    ⟨fun ⟨read, braceless, complete⟩ => ⟨read, braceless, complete⟩,
      fun ⟨read, braceless, complete⟩ => ⟨read, braceless, complete⟩⟩

theorem splitCommentFrom_append_commentMark {text : Text} (unquoted : quotationMark ∉ text)
    (slashless : '/' ∉ text) (escaped : Bool) :
    (splitCommentFrom false escaped (text ++ commentMark)).1 = text := by
  induction text generalizing escaped with
  | nil => simp [commentMark, splitCommentFrom, quotationMark]
  | cons c rest inductionHypothesis =>
      rw [List.mem_cons, not_or] at unquoted slashless
      rw [List.cons_append, splitCommentFrom, if_neg fun mark => unquoted.1 mark.1.symm,
        if_neg fun slash => slashless.1 slash.1.symm]
      exact congrArg _ (inductionHypothesis unquoted.2 slashless.2 _)

theorem isHeading_enumKeyword {name : Text} (named : IsName name) :
    IsHeading name (enumKeyword ++ ' ' :: name) := by
  have absent : ∀ mark, Text.isWord mark = false → mark ≠ ' ' →
      mark ∉ enumKeyword ++ ' ' :: name := by
    intro mark noWord noBlank
    have letters : enumKeyword.all Text.isWord = true := by decide
    rw [List.mem_append, List.mem_cons, not_or, not_or]
    refine ⟨?_, noBlank, ?_⟩
    · intro membership
      rw [List.all_eq_true.mp letters mark membership] at noWord
      contradiction
    · intro membership
      rw [named.2 mark membership] at noWord
      contradiction
  have readable : Settings.Readable { accessModifier := [] } := ⟨.inl rfl, by decide⟩
  have line : headerLine name [] [] { accessModifier := [] } = enumKeyword ++ ' ' :: name := by
    simp [headerLine_eq, attributePart, modifierPart]
  have blank : Text.isBlankText [] = true := rfl
  have read := ofLine?_headerLine readable named blank isAttributeList_nil
  rw [line] at read
  refine ⟨?_, ⟨absent _ (by decide) (by decide), absent _ (by decide) (by decide)⟩, ?_⟩
  · rw [read]
    rfl
  · exact splitCommentFrom_append_commentMark (absent _ (by decide) (by decide))
      (absent _ (by decide) (by decide)) false

namespace IsHeading

variable {name header : Text} (heading : IsHeading name header)

include heading in
theorem exists_ofLine? :
    ∃ declaration, Declaration.ofLine? header = some declaration ∧ declaration.name = name :=
  Option.map_eq_some_iff.mp heading.read

include heading in
theorem exists_ofLine?_append {c : Char} (blank : Text.isBlank c = true) (rest : Text) :
    ∃ declaration, Declaration.ofLine? (header ++ c :: rest) = some declaration ∧
      declaration.name = name := by
  obtain ⟨declaration, read, rfl⟩ := heading.exists_ofLine?
  exact ofLine?_append read (Text.not_isWord_of_isBlank blank) rest

include heading in
theorem codeOf_append {c : Char} (blank : Text.isBlank c = true) (rest : Text) :
    codeOf (header ++ c :: rest) = header ++ c :: codeOf rest :=
  splitCommentFrom_append_of_complete heading.complete blank rest

include heading in
theorem count_append {c mark : Char} (blank : Text.isBlank c = true)
    (noBlank : Text.isBlank mark = false) (absent : mark ∉ header) (rest : Text) :
    (codeOf (header ++ c :: rest)).count mark = (codeOf rest).count mark := by
  rw [heading.codeOf_append blank, List.count_append, List.count_eq_zero_of_not_mem absent,
    List.count_cons_of_ne (ne_of_isBlank blank noBlank), Nat.zero_add]

include heading in
theorem openCount_append {c : Char} (blank : Text.isBlank c = true) (rest : Text) :
    openCount (header ++ c :: rest) = openCount rest :=
  heading.count_append blank (by decide) heading.braceless.1 rest

include heading in
theorem netBraces_append {c : Char} (blank : Text.isBlank c = true) (rest : Text) :
    netBraces (header ++ c :: rest) = netBraces rest := by
  have closed : closeCount (header ++ c :: rest) = closeCount rest :=
    heading.count_append blank (by decide) heading.braceless.2 rest
  rw [netBraces, netBraces, heading.openCount_append blank, closed]

include heading in
theorem isBlankText_eq_false : Text.isBlankText header = false := by
  obtain ⟨declaration, read, -⟩ := heading.exists_ofLine?
  rw [Bool.eq_false_iff]
  intro blank
  have spent : splitAttributes none header = (header, []) := by
    have whole := splitAttributes_append (areAttributes_of_isBlankText blank) []
    simpa [splitAttributes] using whole
  rw [Declaration.ofLine?, afterKeyword?, spent] at read
  contradiction

include heading in
theorem strip_append {c : Char} {rest : Text} (written : Text.isBlankText rest = false) :
    Text.strip (header ++ c :: rest) = Text.dropBlank header ++ c :: Text.stripEnd rest := by
  obtain ⟨first, tail, shape, mark⟩ := Text.exists_dropBlank heading.isBlankText_eq_false
  have whole : header ++ c :: rest =
      Text.indentOf header ++ (Text.dropBlank header ++ c :: rest) := by
    rw [← List.append_assoc, Text.indentOf_append_dropBlank]
  have trimmed : Text.stripEnd (Text.dropBlank header ++ [c] ++ rest) =
      Text.dropBlank header ++ [c] ++ Text.stripEnd rest := Text.stripEnd_append written _
  rw [List.append_assoc, List.append_assoc, List.singleton_append, List.singleton_append]
    at trimmed
  rw [whole, Text.strip_indent_append (Text.isBlankText_indentOf header), ← trimmed, Text.strip,
    shape, List.cons_append, Text.dropBlank_cons mark]

include heading in
theorem braceEntries_append {c : Char} (blank : Text.isBlank c = true) (rest : Text) :
    braceEntries (Text.strip (header ++ c :: '{' :: rest)) =
      braceEntries (Text.strip ('{' :: rest)) := by
  have code : codeOf (Text.strip (header ++ c :: '{' :: rest)) =
      Text.dropBlank header ++ c :: codeOf (Text.strip ('{' :: rest)) := by
    rw [heading.strip_append rfl, ← List.append_cancel_left_eq (Text.indentOf header),
      ← codeOf_blank_append (Text.isBlankText_indentOf header), ← List.append_assoc,
      ← List.append_assoc, Text.indentOf_append_dropBlank, heading.codeOf_append blank,
      Text.strip, Text.dropBlank_cons (by decide)]
  have absent : '{' ∉ Text.dropBlank header ++ [c] := by
    rw [List.mem_append, List.mem_singleton, not_or]
    exact ⟨fun membership => heading.braceless.1 ((List.dropWhile_suffix _).subset membership),
      (ne_of_isBlank blank (by decide)).symm⟩
  have body (closed : Bool) : inlineBody (Text.strip (header ++ c :: '{' :: rest)) closed =
      inlineBody (Text.strip ('{' :: rest)) closed := by
    rw [inlineBody, inlineBody, code, ← List.singleton_append, ← List.append_assoc,
      afterFirst_append absent]
  rw [braceEntries, braceEntries, body, netBraces_strip, netBraces_strip,
    heading.netBraces_append blank]

end IsHeading

namespace Reading

variable {name header : Text} (heading : IsHeading name header) (reading : Reading) (number : Nat)

include heading in
theorem step_heading :
    (reading.step number header).depth = reading.depth ∧
      (reading.step number header).declared = reading.declared ++ [⟨name, []⟩] ∧
      (reading.step number header).scopes =
        ⟨reading.declared.length, name, reading.depth⟩ :: reading.scopes := by
  obtain ⟨declaration, read, rfl⟩ := heading.exists_ofLine?
  have headless := braceless_codeOf heading.braceless
  have effect := step_of_ofLine? read reading number
  rw [netBraces_eq_zero headless, openCount_eq_zero headless, if_neg (by omega)] at effect
  refine ⟨?_, declared_step_of_ofLine? read (openCount_eq_zero headless) reading number, effect.2⟩
  rw [effect.1]
  omega

include heading in
/-- What a declaration with a brace behind it does to a document. -/
theorem step_heading_brace (rest : Text) :
    (reading.step number (header ++ ' ' :: '{' :: rest)).depth =
        reading.depth + netBraces ('{' :: rest) ∧
      (reading.step number (header ++ ' ' :: '{' :: rest)).declared =
        reading.declared ++ [⟨name, braceEntries (Text.strip ('{' :: rest))⟩] ∧
      (reading.step number (header ++ ' ' :: '{' :: rest)).scopes =
        if netBraces ('{' :: rest) ≤ 0 then reading.scopes
        else ⟨reading.declared.length, name, reading.depth⟩ :: reading.scopes := by
  have blank : Text.isBlank ' ' = true := by decide
  obtain ⟨declaration, read, rfl⟩ := heading.exists_ofLine?_append blank ('{' :: rest)
  have opens := openCount_brace_cons rest
  have effect := step_of_ofLine? read reading number
  rw [heading.openCount_append blank, heading.netBraces_append blank] at effect
  refine ⟨effect.1, ?_, ?_⟩
  · rw [step_eq_declare read, declared_declare, heading.braceEntries_append blank]
    rw [openCount_strip, heading.openCount_append blank]
    exact opens
  · simpa only [opens, true_and] using effect.2

end Reading

end EnumBlocks
