import EnumBlocks.Block.Basic
import EnumBlocks.Proofs.Braces
import EnumBlocks.Proofs.Declaration

/-!
How the lines of a written block are read. Its first line declares it and nothing else, with the
indent and the attributes it was written with, and no other line of it declares anything, whatever
the values and comments of its entries hold.
-/

namespace EnumBlocks

/-- The settings under which written blocks are declarations. -/
structure Settings.Readable (settings : Settings) : Prop where
  modifier : settings.accessModifier = [] ∨ settings.accessModifier ∈ modifiers
  indentUnit : Text.isBlankText settings.indentUnit = true

theorem Settings.readable_default : Settings.Readable {} where
  modifier := .inr (by decide)
  indentUnit := by decide

theorem Settings.Readable.not_mem_accessModifier {settings : Settings}
    (readable : settings.Readable) {mark : Char} (foreign : ∀ word ∈ modifiers, mark ∉ word) :
    mark ∉ settings.accessModifier := by
  rcases readable.modifier with none | known
  · rw [none]
    exact List.not_mem_nil
  · exact foreign _ known

/-- Attributes as they stand in front of a declaration: none, or some with blanks between them. -/
def IsAttributeList (text : Text) : Prop :=
  AreAttributes text ∧ Text.strip text = text

theorem isAttributeList_attributesOf (line : Text) : IsAttributeList (attributesOf line) :=
  ⟨areAttributes_attributesOf line, Text.strip_strip _⟩

theorem isAttributeList_nil : IsAttributeList [] :=
  ⟨.none, rfl⟩

def attributePart (attributes : Text) : Text :=
  if attributes = [] then [] else attributes ++ [' ']

def modifierPart (settings : Settings) : Text :=
  if settings.accessModifier = [] then [] else settings.accessModifier ++ [' ']

theorem headerLine_eq (name indent attributes : Text) (settings : Settings) :
    headerLine name indent attributes settings =
      (indent ++ attributePart attributes) ++
        (modifierPart settings ++ (enumKeyword ++ ' ' :: name)) := by
  simp [headerLine, attributePart, modifierPart, enumKeyword]

theorem not_mem_headerLine {name indent attributes : Text} {settings : Settings} {mark : Char}
    (inName : mark ∉ name) (inIndent : mark ∉ indent) (inAttributes : mark ∉ attributes)
    (inModifier : mark ∉ settings.accessModifier) (foreign : mark ∉ enumKeyword ++ [' ']) :
    mark ∉ headerLine name indent attributes settings := by
  rw [List.mem_append, List.mem_singleton, not_or] at foreign
  have list : mark ∉ attributePart attributes := by
    unfold attributePart
    split
    · exact List.not_mem_nil
    · simp [inAttributes, foreign.2]
  have modifier : mark ∉ modifierPart settings := by
    unfold modifierPart
    split
    · exact List.not_mem_nil
    · simp [inModifier, foreign.2]
  rw [headerLine_eq]
  simp [inName, inIndent, list, modifier, foreign]

theorem areAttributes_attributePart {attributes : Text} (complete : AreAttributes attributes) :
    AreAttributes (attributePart attributes) := by
  unfold attributePart
  split
  · exact .none
  · exact complete.append (areAttributes_of_isBlankText (by decide))

theorem strip_attributePart (attributes : Text) :
    Text.strip (attributePart attributes) = Text.strip attributes := by
  unfold attributePart
  split
  · rename_i none
    rw [none]
  · have blank : Text.isBlankText [' '] = true := by decide
    have none : Text.isBlankText [] = true := rfl
    exact Text.strip_append_blank none blank attributes

theorem not_isBlank_head_of_strip_eq {c : Char} {rest : Text}
    (trimmed : Text.strip (c :: rest) = c :: rest) : Text.isBlank c = false := by
  by_contra blank
  rw [Bool.not_eq_false] at blank
  have dropped : Text.strip (c :: rest) = Text.strip rest := by
    rw [Text.strip, Text.dropBlank, List.dropWhile_cons_of_pos blank]
    rfl
  have shorter := (Text.strip_infix rest).length_le
  rw [← dropped, trimmed, List.length_cons] at shorter
  omega

theorem indentOf_append_attributesOf (line : Text) :
    Text.indentOf line ++ attributesOf line <+: line := by
  have whole := append_splitAttributes none line
  rw [Option.getD_none, List.reverse_nil, List.nil_append] at whole
  obtain ⟨blanks, -, shape⟩ := Text.exists_strip_append (splitAttributes none line).1
  cases attributes : attributesOf line with
  | nil =>
      rw [List.append_nil]
      exact List.takeWhile_prefix _
  | cons c rest =>
      rw [attributesOf] at attributes
      have mark : Text.isBlank c = false :=
        not_isBlank_head_of_strip_eq (by rw [← attributes, Text.strip_strip])
      rw [attributes, List.append_assoc] at shape
      have indent : Text.indentOf line = Text.indentOf (splitAttributes none line).1 := by
        conv_lhs => rw [← whole, shape]
        rw [List.append_assoc, Text.indentOf_append (Text.isBlankText_indentOf _), List.cons_append,
          List.cons_append, Text.indentOf_cons mark, List.append_nil]
      refine ⟨blanks ++ (splitAttributes none line).2, ?_⟩
      conv_rhs => rw [← whole, shape]
      rw [indent]
      simp

section Header

variable {name indent attributes : Text} {settings : Settings}
  (readable : settings.Readable) (named : IsName name)
  (blank : Text.isBlankText indent = true) (list : IsAttributeList attributes)

include readable in
theorem modifierPart_start (rest : Text) :
    ∃ c tail, modifierPart settings ++ (enumKeyword ++ rest) = c :: tail ∧ c ∈ ['e', 'p', 'i'] := by
  have starts : ∀ word ∈ modifiers, ∃ c tail, word = c :: tail ∧ c ∈ ['e', 'p', 'i'] := by
    simp only [modifiers, List.forall_mem_cons, List.not_mem_nil, false_implies, implies_true,
      and_true]
    exact ⟨⟨_, _, rfl, by decide⟩, ⟨_, _, rfl, by decide⟩, ⟨_, _, rfl, by decide⟩,
      ⟨_, _, rfl, by decide⟩⟩
  unfold modifierPart
  split
  · exact ⟨'e', _, rfl, by decide⟩
  · rename_i present
    obtain ⟨c, tail, shape, known⟩ := starts _ (readable.modifier.resolve_left present)
    exact ⟨c, _, by rw [shape]; rfl, known⟩

theorem not_isBlank_of_start {c : Char} (start : c ∈ ['e', 'p', 'i']) : Text.isBlank c = false :=
  @Text.not_isBlank_of_all ['e', 'p', 'i'] (by decide) c start

include readable in
theorem dropModifiers_modifierPart (rest : Text) :
    dropModifiers [] (modifierPart settings ++ rest) = dropModifiers [] rest := by
  unfold modifierPart
  split
  · rfl
  · rename_i present
    rw [List.append_assoc]
    exact dropModifiers_modifier (readable.modifier.resolve_left present) (by decide) rest

include readable blank list in
theorem splitAttributes_headerLine :
    splitAttributes none (headerLine name indent attributes settings) =
      (indent ++ attributePart attributes,
        modifierPart settings ++ (enumKeyword ++ ' ' :: name)) := by
  obtain ⟨c, tail, shape, start⟩ := modifierPart_start readable (' ' :: name)
  have unbracketed : c ≠ '[' := ne_of_mem_of_not_mem start (by decide)
  have complete : AreAttributes (indent ++ attributePart attributes) :=
    (areAttributes_of_isBlankText blank).append (areAttributes_attributePart list.1)
  rw [headerLine_eq, splitAttributes_append complete, shape,
    splitAttributes_cons (not_isBlank_of_start start) unbracketed, List.append_nil]

include readable blank list in
theorem attributesOf_headerLine :
    attributesOf (headerLine name indent attributes settings) = attributes := by
  have trimmed := Text.strip_indent_append blank (attributePart attributes)
  rw [strip_attributePart, list.2] at trimmed
  rw [attributesOf, splitAttributes_headerLine readable blank list, trimmed]

include readable blank list in
theorem indentOf_headerLine :
    Text.indentOf (headerLine name indent attributes settings) = indent := by
  rw [headerLine_eq, List.append_assoc, Text.indentOf_append blank]
  unfold attributePart
  split
  · obtain ⟨c, tail, shape, start⟩ := modifierPart_start readable (' ' :: name)
    rw [List.nil_append, shape, Text.indentOf_cons (not_isBlank_of_start start), List.append_nil]
  · rename_i present
    cases attributes with
    | nil => exact absurd rfl present
    | cons c rest =>
        simp only [List.cons_append]
        rw [Text.indentOf_cons (not_isBlank_head_of_strip_eq list.2), List.append_nil]

include readable blank list in
theorem afterKeyword?_headerLine :
    afterKeyword? (headerLine name indent attributes settings) = some (' ' :: name) := by
  rw [afterKeyword?_eq_some_iff, splitAttributes_headerLine readable blank list,
    dropModifiers_modifierPart readable]
  exact dropModifiers_word (Text.not_isBlank_of_all (by decide)) (by decide) (by decide)
    (by simp; decide)

include readable named blank list in
/-- The first line of a written block declares the block. -/
theorem ofLine?_headerLine :
    Declaration.ofLine? (headerLine name indent attributes settings) =
      some ⟨indent, name, false⟩ := by
  have keyword := @afterKeyword?_headerLine name _ _ _ readable blank list
  rcases named.exists_cons with ⟨c, rest, shape, word⟩
  have dropped : Text.dropBlank (' ' :: name) = name := by
    rw [Text.dropBlank, List.dropWhile_cons_of_pos (by decide), shape]
    exact Text.dropBlank_cons (Text.not_isBlank_of_isWord word) rest
  have letters : name.takeWhile Text.isWord = name := List.takeWhile_eq_self_iff.mpr named.2
  have spent : name.dropWhile Text.isWord = [] := List.dropWhile_eq_nil_iff.mpr named.2
  refine ofLine?_eq_some_iff.mpr ⟨_, keyword, ?_, ?_, ?_⟩
  · rw [Text.indentOf, List.takeWhile_cons_of_pos (by decide)]
    exact List.cons_ne_nil _ _
  · rw [dropped, letters]
    exact named.1
  · rw [dropped, letters, spent, indentOf_headerLine readable blank list]
    rfl

include readable named blank list in
theorem declares_headerLine_iff {other : Text} (otherNamed : IsName other) :
    declares other (headerLine name indent attributes settings) = true ↔ other = name := by
  rw [declares_iff otherNamed, ofLine?_headerLine readable named blank list]
  simp [eq_comm]

end Header

theorem exists_dropModifiers_held {held : Text} {mark : Char} (membership : mark ∈ held)
    (foreign : ∀ word ∈ modifiers, mark ∉ word) (text : Text) :
    ∃ tail, dropModifiers held text = held.reverse ++ tail := by
  induction text generalizing held with
  | nil => exact ⟨[], by simp [dropModifiers]⟩
  | cons c rest inductionHypothesis =>
      rw [dropModifiers]
      split
      · have other : ¬ (held = [] ∨ held.reverse ∈ modifiers) := by
          rintro (empty | modifier)
          · rw [empty] at membership
            contradiction
          · exact foreign _ modifier (List.mem_reverse.mpr membership)
        rw [if_neg other]
        exact ⟨c :: rest, rfl⟩
      · obtain ⟨tail, equality⟩ := inductionHypothesis (List.mem_cons_of_mem c membership)
        exact ⟨c :: tail, by rw [equality]; simp⟩

theorem splitAttributes_indent_cons {indent : Text} (blank : Text.isBlankText indent = true)
    {c : Char} (mark : Text.isBlank c = false) (unbracketed : c ≠ '[') (rest : Text) :
    (splitAttributes none (indent ++ c :: rest)).2 = c :: rest := by
  rw [splitAttributes_append (areAttributes_of_isBlankText blank),
    splitAttributes_cons mark unbracketed]

theorem takeWhile_enumKeyword {rest : Text} (separated : Text.indentOf rest ≠ []) :
    (enumKeyword ++ rest).takeWhile (fun c => !Text.isBlank c) = enumKeyword := by
  rw [List.takeWhile_append_of_pos (List.all_eq_true.mp (by decide))]
  cases rest with
  | nil => rfl
  | cons c tail =>
      have blank := Text.isBlank_of_mem_head? separated rfl
      rw [List.takeWhile_cons_of_neg (by simp [blank]), List.append_nil]

theorem dropModifiers_blank_append {blanks : Text} (blank : Text.isBlankText blanks = true)
    (rest : Text) : dropModifiers [] (blanks ++ rest) = dropModifiers [] rest := by
  induction blanks with
  | nil => rfl
  | cons c tail inductionHypothesis =>
      rw [Text.isBlankText_cons] at blank
      rw [List.cons_append, dropModifiers, if_pos blank.1, if_pos (.inl rfl)]
      exact inductionHypothesis blank.2

theorem dropModifiers_ne_enumKeyword {word : Text} (unbroken : ∀ c ∈ word, Text.isBlank c = false)
    {mark : Char} (noBlank : Text.isBlank mark = false) (noWord : Text.isWord mark = false)
    (rest : Text) {after : Text} (separated : Text.indentOf after ≠ []) :
    dropModifiers [] (word ++ mark :: rest) ≠ enumKeyword ++ after := by
  intro keyword
  have foreign : ∀ known : Text, known.all Text.isWord = true → mark ∉ known := by
    intro known letters membership
    rw [List.all_eq_true.mp letters mark membership] at noWord
    contradiction
  have modifiersForeign : ∀ known ∈ modifiers, mark ∉ known := by
    have letters : modifiers.all (·.all Text.isWord) = true := by decide
    exact fun known membership => foreign known (List.all_eq_true.mp letters known membership)
  have held : mark ∈ mark :: word.reverse := List.mem_cons_self
  obtain ⟨tail, equality⟩ := exists_dropModifiers_held held modifiersForeign rest
  rw [dropModifiers_append unbroken, List.append_nil, dropModifiers, if_neg (by simp [noBlank]),
    equality, List.reverse_cons, List.reverse_reverse] at keyword
  have marked : ∀ c ∈ word ++ [mark], (!Text.isBlank c) = true := by
    simp only [List.mem_append, List.mem_singleton, Bool.not_eq_true']
    rintro c (membership | rfl)
    · exact unbroken c membership
    · exact noBlank
  have words := takeWhile_enumKeyword separated
  rw [← keyword, List.takeWhile_append_of_pos marked] at words
  apply foreign enumKeyword (by decide)
  rw [← words]
  simp

theorem ofLine?_indent_cons {indent : Text} (blank : Text.isBlankText indent = true) {mark : Char}
    (noBlank : Text.isBlank mark = false) (noWord : Text.isWord mark = false)
    (unbracketed : mark ≠ '[') (rest : Text) :
    Declaration.ofLine? (indent ++ mark :: rest) = none := by
  rw [Option.eq_none_iff_forall_ne_some]
  intro declaration read
  obtain ⟨after, keyword, separated, -, -⟩ := ofLine?_eq_some_iff.mp read
  rw [afterKeyword?_eq_some_iff, splitAttributes_indent_cons blank noBlank unbracketed] at keyword
  have nothing : ∀ c ∈ ([] : Text), Text.isBlank c = false := by simp
  exact dropModifiers_ne_enumKeyword nothing noBlank noWord rest separated keyword

theorem ofLine?_brace {indent : Text} (blank : Text.isBlankText indent = true) {brace : Char}
    (isBrace : brace = '{' ∨ brace = '}') : Declaration.ofLine? (indent ++ [brace]) = none := by
  rcases isBrace with rfl | rfl
  · exact ofLine?_indent_cons blank (by decide) (by decide) (by decide) []
  · exact ofLine?_indent_cons blank (by decide) (by decide) (by decide) []

theorem valuePart_cases (value : Text) :
    Entry.valuePart value = [] ∨ ∃ tail, Entry.valuePart value = ' ' :: '=' :: tail := by
  unfold Entry.valuePart
  split
  · exact .inl rfl
  · exact .inr ⟨_, rfl⟩

/-- A line whose first word is followed by a mark, or by nothing, declares nothing, not even where
the word is a keyword: the name of a declaration would have to come next. -/
theorem ofLine?_eq_none_of_word {name indent gap rest : Text} (named : IsName name)
    (blank : Text.isBlankText indent = true) (gapBlank : Text.isBlankText gap = true)
    (ended : ∀ c ∈ rest.head?, Text.isBlank c = false ∧ Text.isWord c = false) :
    Declaration.ofLine? (indent ++ (name ++ (gap ++ rest))) = none := by
  rw [Option.eq_none_iff_forall_ne_some]
  intro declaration read
  obtain ⟨after, keyword, separated, written, -⟩ := ofLine?_eq_some_iff.mp read
  have remainder : (splitAttributes none (indent ++ (name ++ (gap ++ rest)))).2 =
      name ++ (gap ++ rest) := by
    rcases named.exists_cons with ⟨first, others, shape, word⟩
    have unbracketed : first ≠ '[' := by
      rintro rfl
      exact absurd word (by decide)
    rw [shape]
    exact splitAttributes_indent_cons blank (Text.not_isBlank_of_isWord word) unbracketed _
  rw [afterKeyword?_eq_some_iff, remainder] at keyword
  have words := takeWhile_enumKeyword separated
  cases gap with
  | nil =>
      cases rest with
      | nil =>
          rw [dropModifiers_append named.not_isBlank, List.append_nil] at keyword
          rw [List.append_nil, dropModifiers, List.reverse_reverse] at keyword
          rw [← keyword, List.takeWhile_eq_self_iff.mpr (by simpa using named.not_isBlank)] at words
          rw [words, List.self_eq_append_right] at keyword
          exact separated (by rw [keyword]; rfl)
      | cons mark tail =>
          obtain ⟨noBlank, noWord⟩ := ended mark rfl
          exact dropModifiers_ne_enumKeyword named.not_isBlank noBlank noWord tail separated keyword
  | cons space blanks =>
      have parts : Text.isBlank space = true ∧ Text.isBlankText blanks = true := by
        simpa [Text.isBlankText] using gapBlank
      rw [List.cons_append] at keyword
      by_cases modifier : name ∈ modifiers
      · rw [dropModifiers_modifier modifier parts.1, dropModifiers_blank_append parts.2] at keyword
        cases rest with
        | nil => simp [dropModifiers, enumKeyword] at keyword
        | cons mark tail =>
            obtain ⟨noBlank, noWord⟩ := ended mark rfl
            have nothing : ∀ c ∈ ([] : Text), Text.isBlank c = false := by simp
            exact dropModifiers_ne_enumKeyword nothing noBlank noWord tail separated keyword
      · rw [dropModifiers_word named.not_isBlank named.1 modifier (by simpa using parts.1)]
          at keyword
        rw [← keyword, List.takeWhile_append_of_pos (by simpa using named.not_isBlank),
          List.takeWhile_cons_of_neg (by simp [parts.1]), List.append_nil] at words
        rw [words, List.append_cancel_left_eq, ← List.cons_append] at keyword
        rw [← keyword, Text.dropBlank_append gapBlank] at written
        cases rest with
        | nil => exact written rfl
        | cons mark tail =>
            obtain ⟨noBlank, noWord⟩ := ended mark rfl
            rw [Text.dropBlank_cons noBlank] at written
            exact written (List.takeWhile_cons_of_neg (by simp [noWord]))

theorem Entry.exists_render_eq (entry : Entry) (indent : Text) :
    ∃ gap mark rest, Text.isBlankText gap = true ∧ (mark = ',' ∨ mark = '=') ∧
      entry.render indent = indent ++ (entry.name ++ (gap ++ mark :: rest)) := by
  rcases valuePart_cases entry.value with valueless | ⟨tail, shape⟩
  · refine ⟨[], ',', Entry.commentPart entry.comment, rfl, .inl rfl, ?_⟩
    simp [Entry.render, valueless]
  · refine ⟨[' '], '=', tail ++ ',' :: Entry.commentPart entry.comment, by decide, .inr rfl, ?_⟩
    simp [Entry.render, shape]

/-- The line of an entry declares nothing, not even where the entry is called like a keyword: a
comma or an equals sign stands where the name of a declaration would have to begin. -/
theorem ofLine?_render {entry : Entry} (named : IsName entry.name) {indent : Text}
    (blank : Text.isBlankText indent = true) :
    Declaration.ofLine? (entry.render indent) = none := by
  obtain ⟨gap, mark, rest, gapBlank, isMark, line⟩ := entry.exists_render_eq indent
  rw [line]
  apply ofLine?_eq_none_of_word named blank gapBlank
  rcases isMark with rfl | rfl <;> simp <;> decide

theorem not_mem_render {entry : Entry} {indent : Text} {mark : Char} (inIndent : mark ∉ indent)
    (inName : mark ∉ entry.name) (inValue : mark ∉ entry.value) (inComment : mark ∉ entry.comment)
    (foreign : mark ∉ [' ', '=', ',', '/']) : mark ∉ entry.render indent := by
  simp only [List.mem_cons, List.not_mem_nil, or_false, not_or] at foreign
  obtain ⟨noBlank, noSign, noComma, noSlash⟩ := foreign
  have valuePart : mark ∉ Entry.valuePart entry.value := by
    have trimmed : mark ∉ Text.strip entry.value := fun membership =>
      inValue (Text.mem_of_mem_strip membership)
    unfold Entry.valuePart
    split
    · exact List.not_mem_nil
    · simp [noBlank, noSign, trimmed]
  have commentPart : mark ∉ Entry.commentPart entry.comment := by
    unfold Entry.commentPart
    split
    · exact List.not_mem_nil
    · simp [noBlank, noSlash, inComment]
  simp [Entry.render, inIndent, inName, valuePart, noComma, commentPart]

def Block.bodyLines (block : Block) (indent : Text) (settings : Settings) : List Text :=
  (indent ++ ['{']) :: ((block.entries.filter Entry.isWritten).map
    (Entry.render · (indent ++ settings.indentUnit)) ++ [indent ++ ['}']])

theorem Block.render_eq (block : Block) (indent attributes : Text) (settings : Settings) :
    block.render indent attributes settings =
      headerLine block.name indent attributes settings :: block.bodyLines indent settings := by
  simp [Block.render, Block.bodyLines]

section Parts

variable {block : Block} {indent attributes : Text} {settings : Settings} {holds : Text → Prop}
  (braces : ∀ brace, brace = '{' ∨ brace = '}' → holds (indent ++ [brace]))
  (entries : ∀ entry ∈ block.entries, entry.isWritten = true →
    holds (entry.render (indent ++ settings.indentUnit)))

include braces entries in
theorem Block.forall_mem_bodyLines : ∀ line ∈ block.bodyLines indent settings, holds line := by
  intro line membership
  simp only [Block.bodyLines, List.mem_cons, List.mem_append, List.mem_map, List.mem_filter,
    List.not_mem_nil, or_false] at membership
  rcases membership with rfl | ⟨entry, ⟨present, written⟩, rfl⟩ | rfl
  · exact braces '{' (.inl rfl)
  · exact entries entry present written
  · exact braces '}' (.inr rfl)

include braces entries in
theorem Block.forall_mem_render
    (header : holds (headerLine block.name indent attributes settings)) :
    ∀ line ∈ block.render indent attributes settings, holds line := by
  rw [Block.render_eq, List.forall_mem_cons]
  exact ⟨header, Block.forall_mem_bodyLines braces entries⟩

end Parts

section Body

variable {block : Block} {indent attributes : Text} {settings : Settings}
  (readable : settings.Readable) (blank : Text.isBlankText indent = true)
  (named : ∀ entry ∈ block.entries, entry.isWritten = true → IsName entry.name)

include readable blank in
theorem isBlankText_entryIndent : Text.isBlankText (indent ++ settings.indentUnit) = true :=
  Text.isBlankText_append.mpr ⟨blank, readable.indentUnit⟩

include readable blank named in
theorem ofLine?_of_mem_bodyLines :
    ∀ line ∈ block.bodyLines indent settings, Declaration.ofLine? line = none := by
  apply Block.forall_mem_bodyLines
  · intro brace isBrace
    exact ofLine?_brace blank isBrace
  · intro entry present written
    exact ofLine?_render (named entry present written) (isBlankText_entryIndent readable blank)

include readable blank named in
/-- A written block declares itself and no other name. -/
theorem declares_of_mem_render (list : IsAttributeList attributes) (blockNamed : IsName block.name)
    {name : Text} (nameNamed : IsName name) :
    (∃ line ∈ block.render indent attributes settings, declares name line = true) ↔
      name = block.name := by
  rw [Block.render_eq]
  simp only [List.mem_cons, exists_eq_or_imp,
    declares_headerLine_iff readable blockNamed blank list nameNamed]
  constructor
  · rintro (same | ⟨line, membership, declared⟩)
    · exact same
    · have plain := ofLine?_of_mem_bodyLines readable blank named line membership
      rw [not_declares_of_ofLine?_eq_none nameNamed plain] at declared
      contradiction
  · exact .inl

end Body

end EnumBlocks
