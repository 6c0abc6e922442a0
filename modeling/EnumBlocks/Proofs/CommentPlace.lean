import EnumBlocks.Proofs.EntryTail

/-!
Where the comment of an entry begins. Counting braces takes the first two slashes outside quotation
marks, reading an entry takes the first two that can end it, in quotation marks or not. The two
agree on an entry exactly if its value does not begin with two slashes and no two slashes stand in
quotation marks in front of its comment.
-/

namespace EnumBlocks

/-- Split a line at its first two slashes, whether they are quoted or not. -/
def splitSlashes : Text → Text × Option Text
  | [] => ([], none)
  | c :: rest =>
      if c = '/' ∧ rest.head? = some '/' then ([], some (rest.drop 1))
      else
        let (code, comment) := splitSlashes rest
        (c :: code, comment)

/-- The comment of a line as counting braces finds it, without the blanks at its end; empty where
there is none. -/
def commentText (line : Text) : Text :=
  match commentStart? line with
  | some start => Text.stripEnd (line.drop (start + 2))
  | none => []

/-- Whether two slashes stand where the value of an entry would begin. They are then the value and
not a comment. -/
def slashesForValue (line : Text) : Bool :=
  match Text.dropBlank (line.dropWhile Text.isWord) with
  | '=' :: rest => commentMark.isPrefixOf (Text.dropBlank rest)
  | _ => false

def slashTail : Option Text → Text
  | none => []
  | some comment => '/' :: '/' :: comment

theorem append_slashTail (line : Text) :
    (splitSlashes line).1 ++ slashTail (splitSlashes line).2 = line := by
  induction line with
  | nil => rfl
  | cons c rest inductionHypothesis =>
      rw [splitSlashes]
      split
      · rename_i slashes
        obtain ⟨tail, rfl⟩ := List.head?_eq_some_iff.mp slashes.2
        rw [slashes.1]
        rfl
      · exact congrArg (c :: ·) inductionHypothesis

theorem slashless_splitSlashes (line : Text) :
    ¬ commentMark <:+: (splitSlashes line).1 ++ (slashTail (splitSlashes line).2).take 1 := by
  induction line with
  | nil => decide
  | cons c rest inductionHypothesis =>
      have whole := append_slashTail rest
      rw [splitSlashes]
      split
      · intro within
        exact absurd within.length_le (by simp [commentMark, slashTail])
      · rename_i apart
        simp only [List.cons_append]
        rw [commentMark_infix_cons, head?_append_take, whole]
        exact not_or.mpr ⟨apart, inductionHypothesis⟩

theorem splitSlashes_isPrefix (quoted escaped : Bool) (line : Text) :
    (splitSlashes line).1 <+: (splitCommentFrom quoted escaped line).1 := by
  induction line generalizing quoted escaped with
  | nil => exact List.prefix_rfl
  | cons c rest inductionHypothesis =>
      rw [splitSlashes]
      split
      · exact List.nil_prefix
      · rename_i apart
        have uncommented : ¬ (c = '/' ∧ quoted = false ∧ rest.head? = some '/') :=
          fun slashes => apart ⟨slashes.1, slashes.2.2⟩
        rw [splitCommentFrom, if_neg uncommented]
        by_cases mark : c = quotationMark ∧ escaped = false
        · rw [if_pos mark]
          exact List.cons_prefix_cons.mpr ⟨rfl, inductionHypothesis _ _⟩
        · rw [if_neg mark]
          exact List.cons_prefix_cons.mpr ⟨rfl, inductionHypothesis _ _⟩

theorem splitComment_of_unquoted {line : Text} (unquoted : quotationMark ∉ (splitSlashes line).1)
    (escaped : Bool) : splitCommentFrom false escaped line = splitSlashes line := by
  induction line generalizing escaped with
  | nil => rfl
  | cons c rest inductionHypothesis =>
      rw [splitSlashes] at unquoted ⊢
      rw [splitCommentFrom]
      by_cases slashes : c = '/' ∧ rest.head? = some '/'
      · have plain : c ≠ quotationMark := by
          rw [slashes.1]
          decide
        rw [if_neg fun mark => plain mark.1, if_pos ⟨slashes.1, rfl, slashes.2⟩, if_pos slashes]
      · rw [if_neg slashes] at unquoted ⊢
        have parts := not_or.mp (List.mem_cons.not.mp unquoted)
        rw [if_neg fun mark => parts.1 mark.1.symm,
          if_neg fun both => slashes ⟨both.1, both.2.2⟩, inductionHypothesis parts.2]

theorem joinComment_eq (parts : Text × Option Text) :
    joinComment parts = parts.1 ++ slashTail parts.2 := by
  obtain ⟨code, _ | comment⟩ := parts
  · exact (List.append_nil code).symm
  · rfl

section Splits

variable {line : Text} {own parts : Text × Option Text} (ownWhole : joinComment own = line)
  (whole : joinComment parts = line)

include ownWhole whole in
theorem eq_of_length_eq (length : own.1.length = parts.1.length) : own = parts := by
  rw [joinComment_eq] at ownWhole whole
  obtain ⟨code, tail⟩ := List.append_inj (ownWhole.trans whole.symm) length
  refine Prod.ext code ?_
  obtain ⟨_, _ | comment⟩ := own <;> obtain ⟨_, _ | other⟩ := parts <;>
    simp_all [slashTail]

variable (later : own.1.length ≤ parts.1.length)

include ownWhole whole later in
/-- A line that ends with its first two slashes has no comment that begins later. -/
theorem eq_or_eq_of_last (last : own.2 = some []) : own = parts ∨ parts = (line, none) := by
  obtain ⟨code, comment⟩ := parts
  cases comment with
  | none => exact .inr (Prod.ext whole rfl)
  | some comment =>
      refine .inl (eq_of_length_eq ownWhole whole ?_)
      have lengths := congrArg List.length (ownWhole.trans whole.symm)
      rw [joinComment_eq, joinComment_eq, last] at lengths
      simp only [slashTail, List.length_append, List.length_cons, List.length_nil]
        at lengths later ⊢
      omega

include ownWhole whole later in
theorem comment_eq_iff :
    own.2.getD [] = parts.2.getD [] ↔ own = parts ∨ own.2 = some [] := by
  constructor
  · intro same
    have lengths := congrArg List.length (ownWhole.trans whole.symm)
    rw [joinComment_eq, joinComment_eq, List.length_append, List.length_append] at lengths
    cases ownTail : own.2 with
    | none =>
        rw [ownTail, slashTail, List.length_nil] at lengths
        exact .inl (eq_of_length_eq ownWhole whole (by omega))
    | some comment =>
        cases tail : parts.2 with
        | none =>
            rw [ownTail, tail] at same
            exact .inr (congrArg some same)
        | some other =>
            rw [ownTail, tail] at same lengths
            simp only [Option.getD_some] at same
            rw [same] at lengths
            exact .inl (eq_of_length_eq ownWhole whole (by omega))
  · rintro (rfl | last)
    · rfl
    · rcases eq_or_eq_of_last ownWhole whole later last with same | uncommented
      · rw [same]
      · rw [uncommented, last]
        rfl

end Splits

theorem stripEnd_of_append {front rest : Text}
    (trimmed : Text.stripEnd (front ++ rest) = front ++ rest) : Text.stripEnd rest = rest := by
  cases written : Text.isBlankText rest with
  | false => exact List.append_cancel_left ((Text.stripEnd_append written front).symm.trans trimmed)
  | true =>
      rw [Text.stripEnd_append_blank written] at trimmed
      obtain ⟨blanks, -, whole⟩ := Text.exists_stripEnd_append front
      have lengths := congrArg List.length whole
      rw [trimmed] at lengths
      simp only [List.length_append] at lengths
      have empty : rest = [] := List.eq_nil_of_length_eq_zero (by omega)
      rw [empty]
      rfl

theorem commentText_eq (line : Text) :
    commentText line = Text.stripEnd ((splitComment line).2.getD []) := by
  have whole := joinComment_splitComment line
  rw [commentText, commentStart?, codeOf]
  generalize splitComment line = parts at whole ⊢
  obtain ⟨code, _ | comment⟩ := parts
  · rfl
  · have dropped : line.drop (code.length + 2) = comment := by
      rw [← whole]
      exact List.drop_length_add_append 2
    exact congrArg Text.stripEnd dropped

theorem commentAtEnd?_slashTail {comment : Option Text} (oneLine : '\n' ∉ slashTail comment) :
    commentAtEnd? (Text.dropBlank (slashTail comment)) = some (comment.getD []) := by
  cases comment with
  | none => rfl
  | some comment =>
      simp only [slashTail, List.mem_cons, not_or] at oneLine
      rw [slashTail, Text.dropBlank_cons (by decide), commentAtEnd?, if_neg oneLine.2.2]
      rfl

theorem isName_takeWhile {line : Text} {entry : Entry} (read : Entry.parse? line = some entry)
    (trimmed : Text.strip line = line) : IsName (line.takeWhile Text.isWord) := by
  refine ⟨fun nameless => ?_, fun _ => List.mem_takeWhile_imp⟩
  rw [Entry.parse?, trimmed] at read
  simp [nameless] at read

theorem not_isWord_head_dropWhile (text : Text) :
    ∀ c ∈ (text.dropWhile Text.isWord).head?, Text.isWord c = false := by
  intro c first
  have stop := List.head?_dropWhile_not Text.isWord text
  rw [Option.mem_def.mp first] at stop
  exact stop

theorem dropWhile_slashTail (code : Text) (comment : Option Text) :
    (code ++ slashTail comment).dropWhile Text.isWord =
      code.dropWhile Text.isWord ++ slashTail comment := by
  cases comment with
  | none => rw [slashTail, List.append_nil, List.append_nil]
  | some comment => exact Text.dropWhile_append_cons (by decide) code _

theorem takeWhile_slashTail (code : Text) (comment : Option Text) :
    (code ++ slashTail comment).takeWhile Text.isWord = code.takeWhile Text.isWord := by
  have whole : (code ++ slashTail comment).takeWhile Text.isWord ++
      (code ++ slashTail comment).dropWhile Text.isWord =
      code.takeWhile Text.isWord ++ (code ++ slashTail comment).dropWhile Text.isWord := by
    rw [List.takeWhile_append_dropWhile, dropWhile_slashTail, ← List.append_assoc,
      List.takeWhile_append_dropWhile]
  exact List.append_cancel_right whole

section Code

/-! A line whose code is a name and what follows it, trimmed, with or without a comment. -/

variable {name rest : Text} {comment : Option Text} {entry : Entry} (named : IsName name)
  (ended : ∀ c ∈ rest.head?, Text.isWord c = false)

include ended in
theorem not_isWord_head_slashTail (comment : Option Text) :
    ∀ c ∈ (rest ++ slashTail comment).head?, Text.isWord c = false := by
  cases rest with
  | cons c others => exact ended
  | nil =>
      cases comment with
      | none => exact ended
      | some comment =>
          rintro c ⟨⟩
          decide

include named ended in
theorem written_of_parse? (read : Entry.parse? (name ++ (rest ++ slashTail comment)) = some entry)
    (unquoted : slashesForValue (name ++ (rest ++ slashTail comment)) = false) {tail : Text}
    (sign : Text.dropBlank (Text.stripEnd rest) = '=' :: tail) :
    Text.isBlankText tail = false := by
  obtain ⟨blanks, blank, split⟩ := Text.exists_stripEnd_append rest
  rw [Bool.eq_false_iff]
  intro nothing
  have spaced : Text.dropBlank rest = '=' :: (tail ++ blanks) := by
    rw [split, Text.dropBlank_append_of_cons sign]
  have blankTail : Text.isBlankText (tail ++ blanks) = true :=
    Text.isBlankText_append.mpr ⟨nothing, blank⟩
  cases comment with
  | none =>
      rw [slashTail, List.append_nil, parse?_of_unvalued named ended spaced blankTail] at read
      contradiction
  | some comment =>
      have behind : Text.dropBlank (rest ++ slashTail (some comment)) =
          '=' :: (tail ++ blanks ++ '/' :: '/' :: comment) :=
        Text.dropBlank_append_of_cons spaced _
      have after := (takeWhile_name_append named (not_isWord_head_slashTail ended (some comment))).2
      rw [slashesForValue, after, behind] at unquoted
      simp only at unquoted
      rw [Text.dropBlank_append blankTail, Text.dropBlank_cons (by decide)] at unquoted
      contradiction

variable (slashless : ¬ commentMark <:+: rest ++ (slashTail comment).take 1)
  (written : ∀ tail, Text.dropBlank (Text.stripEnd rest) = '=' :: tail →
    Text.isBlankText tail = false)

include named ended slashless written in
theorem parse?_code :
    Entry.parse? (name ++ rest) = (afterName? (Text.stripEnd rest)).map fun parts =>
      ⟨name, Text.strip parts.1, []⟩ := by
  have shape : Text.strip (name ++ rest) = name ++ (Text.stripEnd rest ++ []) := by
    rw [strip_name_append named, List.append_nil]
  have bare : ¬ commentMark <:+: Text.stripEnd rest ++ ([] : Text).take 1 := by
    obtain ⟨blanks, -, split⟩ := Text.exists_stripEnd_append rest
    rw [split, List.append_assoc] at slashless
    rw [List.take_nil, List.append_nil]
    exact fun mark => slashless (mark.trans (List.prefix_append _ _).isInfix)
  have still : ∀ c ∈ (Text.stripEnd rest ++ []).head?, Text.isWord c = false := by
    rw [List.append_nil]
    exact fun c first => ended c (Text.mem_head?_of_stripEnd first)
  exact @parse?_of_strip _ [] [] rfl bare _ _ shape named still written

include named ended slashless written in
theorem parse?_code_slashTail (oneLine : '\n' ∉ slashTail comment)
    (trimmed : Text.strip (name ++ (rest ++ slashTail comment)) =
      name ++ (rest ++ slashTail comment)) :
    Entry.parse? (name ++ (rest ++ slashTail comment)) =
      (afterName? (Text.stripEnd rest)).map fun parts =>
        ⟨name, Text.strip parts.1, Text.stripEnd (comment.getD [])⟩ := by
  -- The blanks in front of the comment go with it.
  obtain ⟨blanks, blank, split⟩ := Text.exists_stripEnd_append rest
  have whole : rest ++ slashTail comment = Text.stripEnd rest ++ (blanks ++ slashTail comment) := by
    rw [← List.append_assoc, ← split]
  have ending : commentAtEnd? (Text.dropBlank (blanks ++ slashTail comment)) =
      some (comment.getD []) := by
    rw [Text.dropBlank_append blank, commentAtEnd?_slashTail oneLine]
  have apart : ¬ commentMark <:+: Text.stripEnd rest ++ (blanks ++ slashTail comment).take 1 := by
    rw [split, List.append_assoc] at slashless
    exact fun mark => slashless (mark.trans
      ((List.prefix_append_right_inj _).mpr (take_one_append_isPrefix _ _)).isInfix)
  have follows : ∀ c ∈ (Text.stripEnd rest ++ (blanks ++ slashTail comment)).head?,
      Text.isWord c = false := by
    rw [← whole]
    exact not_isWord_head_slashTail ended comment
  exact parse?_of_strip ending apart (trimmed.trans (congrArg (name ++ ·) whole)) named follows
    written

end Code

/-- What is read of a line is read of what precedes its first two slashes, and the comment is what
follows them, unless they are taken for the value. -/
theorem parse?_splitSlashes {line : Text} {entry : Entry} (oneLine : '\n' ∉ line)
    (trimmed : Text.strip line = line) (read : Entry.parse? line = some entry)
    (unquoted : slashesForValue line = false) :
    Entry.parse? (splitSlashes line).1 = some { entry with comment := [] } ∧
      entry.comment = Text.stripEnd ((splitSlashes line).2.getD []) := by
  have whole := append_slashTail line
  have slashless := slashless_splitSlashes line
  generalize splitSlashes line = parts at whole slashless ⊢
  obtain ⟨code, comment⟩ := parts
  simp only at whole slashless ⊢
  have named := isName_takeWhile read trimmed
  rw [← whole, takeWhile_slashTail] at named
  have ended := not_isWord_head_dropWhile code
  have words := List.takeWhile_append_dropWhile (p := Text.isWord) (l := code)
  generalize code.takeWhile Text.isWord = name at named words
  generalize code.dropWhile Text.isWord = rest at ended words
  rw [← words, List.append_assoc] at whole slashless
  rw [← whole] at oneLine trimmed read unquoted
  have single : '\n' ∉ slashTail comment := fun membership =>
    oneLine (List.mem_append_right _ (List.mem_append_right _ membership))
  have apart : ¬ commentMark <:+: rest ++ (slashTail comment).take 1 := fun mark =>
    slashless (mark.trans (List.suffix_append _ _).isInfix)
  have written := fun tail => @written_of_parse? _ _ _ _ named ended read unquoted tail
  rw [parse?_code_slashTail named ended apart written single trimmed] at read
  obtain ⟨found, value, rfl⟩ := Option.map_eq_some_iff.mp read
  rw [← words, parse?_code named ended apart written, value]
  exact ⟨rfl, rfl⟩

theorem splitSlashes_append {code : Text} (slashless : '/' ∉ code) (comment : Text) :
    splitSlashes (code ++ '/' :: '/' :: comment) = (code, some comment) := by
  induction code with
  | nil => rfl
  | cons c rest inductionHypothesis =>
      rw [List.mem_cons, not_or] at slashless
      rw [List.cons_append, splitSlashes, if_neg fun slashes => slashless.1 slashes.1.symm,
        inductionHypothesis slashless.2]

theorem exists_of_slashesForValue {line : Text} (slashes : slashesForValue line = true) :
    ∃ gap between comment, Text.isBlankText gap = true ∧ Text.isBlankText between = true ∧
      line.dropWhile Text.isWord = gap ++ '=' :: (between ++ '/' :: '/' :: comment) := by
  unfold slashesForValue at slashes
  split at slashes
  · rename_i rest sign
    obtain ⟨comment, shape⟩ := List.isPrefixOf_iff_prefix.mp slashes
    refine ⟨Text.indentOf (line.dropWhile Text.isWord), _, comment, Text.isBlankText_indentOf _,
      Text.isBlankText_indentOf rest, ?_⟩
    conv_lhs => rw [← Text.indentOf_append_dropBlank (line.dropWhile Text.isWord), sign,
      ← Text.indentOf_append_dropBlank rest, ← shape]
    rfl
  · contradiction

theorem parse?_codeOf_of_slashesForValue {line : Text}
    (named : IsName (line.takeWhile Text.isWord)) (slashes : slashesForValue line = true) :
    Entry.parse? (codeOf line) = none := by
  obtain ⟨gap, between, comment, gapBlank, betweenBlank, after⟩ :=
    exists_of_slashesForValue slashes
  have whole : line.takeWhile Text.isWord ++ (gap ++ '=' :: between) ++ '/' :: '/' :: comment =
      line := by
    conv_rhs => rw [← List.takeWhile_append_dropWhile (p := Text.isWord) (l := line), after]
    simp
  have absent : ∀ mark, Text.isBlank mark = false → Text.isWord mark = false → mark ≠ '=' →
      mark ∉ line.takeWhile Text.isWord ++ (gap ++ '=' :: between) := by
    intro mark noBlank noWord noSign
    simp only [List.mem_append, List.mem_cons, not_or]
    refine ⟨fun membership => ?_, Text.not_mem_of_isBlankText gapBlank noBlank, noSign,
      Text.not_mem_of_isBlankText betweenBlank noBlank⟩
    rw [List.mem_takeWhile_imp membership] at noWord
    contradiction
  have split := splitSlashes_append (absent '/' (by decide) (by decide) (by decide)) comment
  rw [whole] at split
  have code : codeOf line = line.takeWhile Text.isWord ++ (gap ++ '=' :: between) := by
    rw [codeOf, splitComment, splitComment_of_unquoted, split]
    rw [split]
    exact absent quotationMark (by decide) (by decide) (by decide)
  have sign : ∀ c ∈ ('=' :: between).head?, Text.isWord c = false := by
    rintro c ⟨⟩
    decide
  rw [code]
  refine parse?_of_unvalued named (not_isWord_head_blank_append gapBlank sign) ?_ betweenBlank
  rw [Text.dropBlank_append gapBlank, Text.dropBlank_cons (by decide)]

theorem stripEnd_comment {line : Text} (trimmed : Text.strip line = line)
    {parts : Text × Option Text} (whole : joinComment parts = line) :
    Text.stripEnd (parts.2.getD []) = parts.2.getD [] := by
  have ended : Text.stripEnd line = line := by
    rw [← trimmed, Text.strip, Text.stripEnd_stripEnd]
  obtain ⟨code, _ | comment⟩ := parts
  · rfl
  · have apart : code ++ '/' :: '/' :: comment = (code ++ commentMark) ++ comment := by
      simp [commentMark]
    rw [← whole, joinComment, apart] at ended
    exact stripEnd_of_append ended

/-- What the code of an entry is read as, and what its comment is: the entry is read alike, and its
comment is the one that counting braces leaves out, exactly if the value does not begin with two
slashes and the first two slashes are not in quotation marks, or are the last of the line. -/
theorem parse?_codeOf_iff {text : Text} (oneLine : '\n' ∉ text) {entry : Entry}
    (read : Entry.parse? text = some entry) :
    (Entry.parse? (codeOf (Text.strip text)) = some { entry with comment := [] } ∧
        entry.comment = commentText (Text.strip text)) ↔
      slashesForValue (Text.strip text) = false ∧
        (splitSlashes (Text.strip text) = splitComment (Text.strip text) ∨
          (splitSlashes (Text.strip text)).2 = some []) := by
  have single : '\n' ∉ Text.strip text :=
    fun membership => oneLine (Text.mem_of_mem_strip membership)
  have trimmed := Text.strip_strip text
  rw [← parse?_strip] at read
  generalize Text.strip text = line at single trimmed read ⊢
  cases slashes : slashesForValue line with
  | true =>
      rw [parse?_codeOf_of_slashesForValue (isName_takeWhile read trimmed) slashes]
      simp
  | false =>
      obtain ⟨bare, comment⟩ := parse?_splitSlashes single trimmed read slashes
      have later : (splitSlashes line).1.length ≤ (splitComment line).1.length :=
        (splitSlashes_isPrefix false false line).length_le
      have whole := joinComment_splitComment line
      have ownWhole : joinComment (splitSlashes line) = line := by
        rw [joinComment_eq, append_slashTail]
      rw [stripEnd_comment trimmed ownWhole] at comment
      rw [commentText_eq, stripEnd_comment trimmed whole, codeOf]
      rw [comment, comment_eq_iff ownWhole whole later]
      constructor
      · rintro ⟨-, same⟩
        exact ⟨rfl, same⟩
      · rintro ⟨-, same⟩
        refine ⟨?_, same⟩
        rcases same with equal | last
        · rw [← equal]
          exact bare
        · rcases eq_or_eq_of_last ownWhole whole later last with equal | uncommented
          · rw [← equal]
            exact bare
          · -- The two slashes are the last of the line, so that there is no comment to leave out.
            rw [last, Option.getD_some] at comment
            rw [uncommented, read, ← comment]

def quotedSlashes : Text :=
  ['A', ' ', '=', ' ', quotationMark, 'x', '/', '/', 'y', quotationMark]

/-- The rest of the quotation is taken for a comment. -/
theorem parse?_codeOf_ne_quotedSlashes :
    Entry.parse? quotedSlashes = some ⟨['A'], [quotationMark, 'x'], ['y', quotationMark]⟩ ∧
      commentText quotedSlashes = [] ∧
      ¬ (Entry.parse? (codeOf (Text.strip quotedSlashes)) =
            some { name := ['A'], value := [quotationMark, 'x'], comment := [] } ∧
          ['y', quotationMark] = commentText (Text.strip quotedSlashes)) := by
  have oneLine : '\n' ∉ quotedSlashes := by decide
  have read : Entry.parse? quotedSlashes =
      some ⟨['A'], [quotationMark, 'x'], ['y', quotationMark]⟩ := by decide
  have apart : ¬ (slashesForValue (Text.strip quotedSlashes) = false ∧
      (splitSlashes (Text.strip quotedSlashes) = splitComment (Text.strip quotedSlashes) ∨
        (splitSlashes (Text.strip quotedSlashes)).2 = some [])) := by decide
  exact ⟨read, by decide, (parse?_codeOf_iff oneLine read).not.mpr apart⟩

end EnumBlocks
