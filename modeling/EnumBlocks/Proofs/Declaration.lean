import EnumBlocks.Declaration
import EnumBlocks.Outline.Reader
import EnumBlocks.Proofs.Text.Trimming

/-!
What declaring lines are made of. A line declares an enum of a given name exactly when it reads as a
declaration that has the name, and directives declare nothing.
-/

namespace EnumBlocks

/-- A name as declarations and entries have it. -/
def IsName (name : Text) : Prop :=
  name ≠ [] ∧ ∀ c ∈ name, Text.isWord c = true

instance (name : Text) : Decidable (IsName name) :=
  decidable_of_iff (name ≠ [] ∧ name.all Text.isWord = true) (by rw [IsName, List.all_eq_true])

/-- Complete attributes in square brackets, with any blanks around them. -/
inductive AreAttributes : Text → Prop
  | none : AreAttributes []
  | blank {c rest} : Text.isBlank c = true → AreAttributes rest → AreAttributes (c :: rest)
  | bracketed {inner rest} : ']' ∉ inner → AreAttributes rest →
      AreAttributes ('[' :: (inner ++ ']' :: rest))

theorem IsName.exists_cons {name : Text} (named : IsName name) :
    ∃ c rest, name = c :: rest ∧ Text.isWord c = true := by
  cases name with
  | nil => exact absurd rfl named.1
  | cons c rest => exact ⟨c, rest, rfl, named.2 c (by simp)⟩

theorem IsName.not_isBlank {name : Text} (named : IsName name) :
    ∀ c ∈ name, Text.isBlank c = false :=
  fun c membership => Text.not_isBlank_of_isWord (named.2 c membership)

theorem areAttributes_of_isBlankText {blanks : Text} (blank : Text.isBlankText blanks = true) :
    AreAttributes blanks := by
  induction blanks with
  | nil => exact .none
  | cons c rest inductionHypothesis =>
      rw [Text.isBlankText_cons] at blank
      exact .blank blank.1 (inductionHypothesis blank.2)

theorem AreAttributes.append {first second : Text} (firstAttributes : AreAttributes first)
    (secondAttributes : AreAttributes second) : AreAttributes (first ++ second) := by
  induction firstAttributes with
  | none => exact secondAttributes
  | blank isBlank _ inductionHypothesis => exact .blank isBlank inductionHypothesis
  | bracketed inside _ inductionHypothesis =>
      rw [List.cons_append, List.append_assoc, List.cons_append]
      exact .bracketed inside inductionHypothesis

theorem AreAttributes.dropBlank {text : Text} (attributes : AreAttributes text) :
    AreAttributes (Text.dropBlank text) := by
  induction attributes with
  | none => exact .none
  | blank isBlank _ inductionHypothesis =>
      rw [Text.dropBlank, List.dropWhile_cons_of_pos isBlank]
      exact inductionHypothesis
  | bracketed inside rest _ =>
      rw [Text.dropBlank_cons (by decide)]
      exact .bracketed inside rest

theorem AreAttributes.stripEnd {text : Text} (attributes : AreAttributes text) :
    AreAttributes (Text.stripEnd text) := by
  induction attributes with
  | none => exact .none
  | @blank c rest isBlank _ inductionHypothesis =>
      cases written : Text.isBlankText rest with
      | true =>
          have whole : Text.isBlankText (c :: rest) = true := by
            simpa [Text.isBlankText, isBlank] using written
          rw [Text.stripEnd_eq_nil_iff.mpr whole]
          exact .none
      | false =>
          rw [show c :: rest = [c] ++ rest from rfl, Text.stripEnd_append written]
          exact .blank isBlank inductionHypothesis
  | @bracketed inner rest inside _ inductionHypothesis =>
      rw [← List.cons_append, Text.stripEnd_append_cons (by decide)]
      exact .bracketed inside inductionHypothesis

theorem splitAttributes_held {inner : Text} (inside : ']' ∉ inner) (held rest : Text) :
    splitAttributes (some held) (inner ++ ']' :: rest) =
      (held.reverse ++ inner ++ ']' :: (splitAttributes none rest).1,
        (splitAttributes none rest).2) := by
  induction inner generalizing held with
  | nil => simp [splitAttributes]
  | cons c tail inductionHypothesis =>
      simp only [List.mem_cons, not_or] at inside
      rw [List.cons_append, splitAttributes, if_neg (Ne.symm inside.1),
        inductionHypothesis inside.2]
      simp

theorem splitAttributes_append {attributes : Text} (complete : AreAttributes attributes)
    (rest : Text) :
    splitAttributes none (attributes ++ rest) =
      (attributes ++ (splitAttributes none rest).1, (splitAttributes none rest).2) := by
  induction complete with
  | none => rfl
  | blank isBlank _ inductionHypothesis =>
      rw [List.cons_append, splitAttributes, if_pos isBlank, inductionHypothesis]
      rfl
  | @bracketed inner tail inside _ inductionHypothesis =>
      rw [List.cons_append, List.append_assoc, List.cons_append, splitAttributes,
        if_neg (by decide), if_pos rfl, splitAttributes_held inside, inductionHypothesis]
      simp

theorem splitAttributes_cons {c : Char} (mark : Text.isBlank c = false) (unbracketed : c ≠ '[')
    (rest : Text) : splitAttributes none (c :: rest) = ([], c :: rest) := by
  rw [splitAttributes, if_neg (by simp [mark]), if_neg unbracketed]

theorem append_splitAttributes (held : Option Text) (line : Text) :
    (splitAttributes held line).1 ++ (splitAttributes held line).2 =
      (held.getD []).reverse ++ line := by
  induction line generalizing held with
  | nil => cases held <;> simp [splitAttributes]
  | cons c rest inductionHypothesis =>
      cases held with
      | none =>
          unfold splitAttributes
          split
          · simpa using inductionHypothesis none
          · split
            · rename_i bracket
              simpa [bracket] using inductionHypothesis (some ['['])
            · rfl
      | some inner =>
          unfold splitAttributes
          split
          · simpa using inductionHypothesis none
          · simpa using inductionHypothesis (some (c :: inner))

theorem attributesOf_subset (line : Text) : attributesOf line ⊆ line := by
  have whole := append_splitAttributes none line
  intro c membership
  have kept := Text.mem_of_mem_strip membership
  rw [Option.getD_none, List.reverse_nil, List.nil_append] at whole
  rw [← whole]
  exact List.mem_append_left _ kept

theorem areAttributes_splitAttributes (line : Text) :
    AreAttributes (splitAttributes none line).1 ∧
      ∀ held, ']' ∉ held → AreAttributes (splitAttributes (some (held ++ ['['])) line).1 := by
  induction line with
  | nil => exact ⟨.none, fun _ _ => .none⟩
  | cons c rest inductionHypothesis =>
      constructor
      · rw [splitAttributes]
        split
        · rename_i isBlank
          exact .blank isBlank inductionHypothesis.1
        · split
          · exact inductionHypothesis.2 [] (by simp)
          · exact .none
      · intro held inside
        rw [splitAttributes]
        split
        · rename_i closing
          subst closing
          rw [List.reverse_append]
          exact .bracketed (by simpa using inside) inductionHypothesis.1
        · rename_i closing
          refine inductionHypothesis.2 (c :: held) ?_
          simp only [List.mem_cons, not_or]
          exact ⟨Ne.symm closing, inside⟩

theorem areAttributes_attributesOf (line : Text) : AreAttributes (attributesOf line) :=
  (areAttributes_splitAttributes line).1.dropBlank.stripEnd

theorem dropModifiers_append {word : Text} (unbroken : ∀ c ∈ word, Text.isBlank c = false)
    (held rest : Text) :
    dropModifiers held (word ++ rest) = dropModifiers (word.reverse ++ held) rest := by
  induction word generalizing held with
  | nil => rfl
  | cons c tail inductionHypothesis =>
      have mark : ¬ Text.isBlank c = true := by
        rw [unbroken c (by simp)]
        exact Bool.false_ne_true
      rw [List.cons_append, dropModifiers, if_neg mark,
        inductionHypothesis fun d membership => unbroken d (by simp [membership])]
      simp

theorem dropModifiers_word {word : Text} (unbroken : ∀ c ∈ word, Text.isBlank c = false)
    (nonempty : word ≠ []) (other : word ∉ modifiers) {rest : Text}
    (ended : ∀ c ∈ rest.head?, Text.isBlank c = true) :
    dropModifiers [] (word ++ rest) = word ++ rest := by
  rw [dropModifiers_append unbroken, List.append_nil]
  cases rest with
  | nil => simp [dropModifiers]
  | cons c tail =>
      rw [dropModifiers, if_pos (ended c rfl), if_neg (by simp [nonempty, other]),
        List.reverse_reverse]

theorem not_isBlank_of_mem_modifiers :
    ∀ word ∈ modifiers, ∀ c ∈ word, Text.isBlank c = false := by
  have unbroken : modifiers.all (·.all (!Text.isBlank ·)) = true := by decide
  intro word membership
  exact Text.not_isBlank_of_all (List.all_eq_true.mp unbroken word membership)

theorem dropModifiers_modifier {word : Text} (modifier : word ∈ modifiers) {c : Char}
    (blank : Text.isBlank c = true) (rest : Text) :
    dropModifiers [] (word ++ c :: rest) = dropModifiers [] rest := by
  rw [dropModifiers_append (not_isBlank_of_mem_modifiers word modifier), List.append_nil,
    dropModifiers, if_pos blank, if_pos (by simp [modifier])]

theorem afterKeyword?_eq_some_iff {line rest : Text} :
    afterKeyword? line = some rest ↔
      dropModifiers [] (splitAttributes none line).2 = enumKeyword ++ rest := by
  rw [afterKeyword?, List.isPrefixOf?_eq_some_iff_append_eq]
  exact eq_comm

theorem startsWithName_iff {name : Text} (named : IsName name) (before : Char) (text : Text) :
    startsWithName name before text = true ↔ text.takeWhile Text.isWord = name := by
  have letters : name.takeWhile Text.isWord = name :=
    List.takeWhile_eq_self_iff.mpr named.2
  unfold startsWithName
  cases found : name.isPrefixOf? text with
  | none =>
      simp only [Bool.false_eq_true, false_iff]
      intro equality
      have start : name <+: text := equality ▸ List.takeWhile_prefix _
      rcases start with ⟨rest, append⟩
      rw [List.isPrefixOf?_eq_some_iff_append_eq.mpr append] at found
      contradiction
  | some rest =>
      rw [← List.isPrefixOf?_eq_some_iff_append_eq.mp found,
        List.takeWhile_append_of_pos named.2]
      have last : Text.isWord (name.getLastD before) = true := by
        rw [List.getLastD_eq_getLast?, List.getLast?_eq_some_getLast named.1]
        exact named.2 _ (List.getLast_mem named.1)
      simp only [Text.isBoundary, Option.any_some, last, List.append_right_eq_self]
      cases rest with
      | nil => simp
      | cons c tail => cases word : Text.isWord c <;> simp [word]

theorem namedAfterBlanks_iff {name : Text} (named : IsName name) (text : Text) :
    namedAfterBlanks name text = true ↔
      Text.indentOf text ≠ [] ∧ (Text.dropBlank text).takeWhile Text.isWord = name := by
  induction text with
  | nil => simp [namedAfterBlanks, Text.indentOf]
  | cons c rest inductionHypothesis =>
      cases blank : Text.isBlank c with
      | false => simp [namedAfterBlanks, blank, Text.indentOf_cons blank]
      | true =>
          have dropped : Text.dropBlank (c :: rest) = Text.dropBlank rest :=
            List.dropWhile_cons_of_pos blank
          have indented : Text.indentOf (c :: rest) ≠ [] := by
            rw [Text.indentOf, List.takeWhile_cons_of_pos blank]
            exact List.cons_ne_nil _ _
          simp only [namedAfterBlanks, blank, Bool.true_and, Bool.or_eq_true,
            startsWithName_iff named, inductionHypothesis, dropped, ne_eq, indented,
            not_false_eq_true, true_and]
          by_cases flush : Text.indentOf rest = []
          · have same : Text.dropBlank rest = rest := by
              conv_rhs => rw [← Text.indentOf_append_dropBlank rest, flush]
              rfl
            simp [flush, same]
          · cases rest with
            | nil => exact absurd rfl flush
            | cons d tail =>
                have further : Text.isBlank d = true := by
                  by_contra mark
                  exact flush (Text.indentOf_cons (by simpa using mark) tail)
                have noWord : (d :: tail).takeWhile Text.isWord = [] :=
                  List.takeWhile_cons_of_neg (by simp [Text.not_isWord_of_isBlank further])
                simp [flush, noWord, Ne.symm named.1]

theorem ofLine?_eq_some_iff {line : Text} {declaration : Declaration} :
    Declaration.ofLine? line = some declaration ↔
      ∃ rest, afterKeyword? line = some rest ∧ Text.indentOf rest ≠ [] ∧
        (Text.dropBlank rest).takeWhile Text.isWord ≠ [] ∧
        declaration = ⟨Text.indentOf line, (Text.dropBlank rest).takeWhile Text.isWord,
          (Text.dropBlank ((Text.dropBlank rest).dropWhile Text.isWord)).head? == some '{'⟩ := by
  unfold Declaration.ofLine?
  cases afterKeyword? line with
  | none => simp
  | some rest =>
      simp only [Option.bind_some, Option.some.injEq]
      split
      · rename_i absent
        constructor
        · intro impossible
          contradiction
        · rintro ⟨_, rfl, separated, written, -⟩
          exact absurd absent (not_or.mpr ⟨separated, written⟩)
      · rename_i present
        rw [not_or] at present
        constructor
        · rintro ⟨rfl⟩
          exact ⟨rest, rfl, present.1, present.2, rfl⟩
        · rintro ⟨_, rfl, -, -, rfl⟩
          rfl

theorem isName_of_ofLine? {line : Text} {declaration : Declaration}
    (read : Declaration.ofLine? line = some declaration) : IsName declaration.name := by
  obtain ⟨rest, -, -, written, rfl⟩ := ofLine?_eq_some_iff.mp read
  exact ⟨written, fun _ => List.mem_takeWhile_imp⟩

/-- A line declares an enum of a name exactly when it reads as a declaration with that name. -/
theorem declares_iff {name : Text} (named : IsName name) (line : Text) :
    declares name line = true ↔
      ∃ declaration, Declaration.ofLine? line = some declaration ∧ declaration.name = name := by
  constructor
  · intro declared
    obtain ⟨present, follows⟩ := (Option.any_eq_true_iff_get _ _).mp declared
    have parts := (namedAfterBlanks_iff named _).mp follows
    refine ⟨_, ofLine?_eq_some_iff.mpr ⟨_, (Option.some_get present).symm, parts.1, ?_, rfl⟩,
      parts.2⟩
    rw [parts.2]
    exact named.1
  · rintro ⟨declaration, read, rfl⟩
    obtain ⟨rest, keyword, separated, -, rfl⟩ := ofLine?_eq_some_iff.mp read
    rw [declares, keyword]
    exact (namedAfterBlanks_iff named rest).mpr ⟨separated, rfl⟩

theorem declares_ofLine? {line : Text} {declaration : Declaration}
    (read : Declaration.ofLine? line = some declaration) :
    declares declaration.name line = true :=
  (declares_iff (isName_of_ofLine? read) line).mpr ⟨declaration, read, rfl⟩

theorem not_declares_of_ofLine?_eq_none {name line : Text} (named : IsName name)
    (plain : Declaration.ofLine? line = none) : declares name line = false := by
  rw [Bool.eq_false_iff]
  intro declared
  obtain ⟨declaration, read, -⟩ := (declares_iff named line).mp declared
  rw [plain] at read
  contradiction

theorem ofLine?_eq_none_of_afterKeyword? {line : Text} (other : afterKeyword? line = none) :
    Declaration.ofLine? line = none := by
  rw [Declaration.ofLine?, other]
  rfl

theorem splitAttributes_strip (line : Text) {c : Char} {rest : Text}
    (shape : Text.strip line = c :: rest) (mark : Text.isBlank c = false)
    (unbracketed : c ≠ '[') :
    ∃ blanks, Text.isBlankText blanks = true ∧
      (splitAttributes none line).2 = Text.strip line ++ blanks := by
  obtain ⟨blanks, blank, whole⟩ := Text.exists_strip_append line
  refine ⟨blanks, blank, ?_⟩
  conv_lhs => rw [whole, List.append_assoc, splitAttributes_append
    (areAttributes_of_isBlankText (Text.isBlankText_indentOf line)), shape, List.cons_append,
    splitAttributes_cons mark unbracketed]
  rw [shape, List.cons_append]

theorem isDirectiveOf_eq_true {keyword line : Text}
    (directive : isDirectiveOf keyword line = true) :
    ∃ c rest, line = keyword ++ c :: rest ∧ Text.isBlank c = true := by
  unfold isDirectiveOf at directive
  cases found : keyword.isPrefixOf? line with
  | none => simp [found] at directive
  | some rest =>
      simp only [found, Bool.and_eq_true] at directive
      have shape := List.isPrefixOf?_eq_some_iff_append_eq.mp found
      cases rest with
      | nil => simp at directive
      | cons c tail => exact ⟨c, tail, shape.symm, by simpa using directive.1.1⟩

theorem ofLine?_eq_none_of_isDirective {line : Text}
    (directive : isDirective (Text.strip line) = true) : Declaration.ofLine? line = none := by
  apply ofLine?_eq_none_of_afterKeyword?
  simp only [isDirective, Bool.or_eq_true] at directive
  have excluded : ∀ keyword : Text, (∀ c ∈ keyword, Text.isBlank c = false) →
      keyword ∉ modifiers → (∃ c rest, keyword = c :: rest ∧ c ≠ '[' ∧ c ≠ 'e') →
      isDirectiveOf keyword (Text.strip line) = true → afterKeyword? line = none := by
    rintro keyword unbroken other ⟨first, tail, rfl, unbracketed, different⟩ begun
    obtain ⟨c, rest, shape, blank⟩ := isDirectiveOf_eq_true begun
    rcases splitAttributes_strip line (by rw [shape]; rfl) (unbroken first (by simp)) unbracketed
      with ⟨blanks, -, remainder⟩
    rw [afterKeyword?, remainder, shape, List.append_assoc,
      dropModifiers_word unbroken (List.cons_ne_nil _ _) other (by simpa using blank)]
    simp [enumKeyword, List.isPrefixOf?, Ne.symm different]
  rcases directive with begun | begun
  · exact excluded _ (Text.not_isBlank_of_all (by decide)) (by decide)
      ⟨_, _, rfl, by decide, by decide⟩ begun
  · exact excluded _ (Text.not_isBlank_of_all (by decide)) (by decide)
      ⟨_, _, rfl, by decide, by decide⟩ begun

end EnumBlocks
