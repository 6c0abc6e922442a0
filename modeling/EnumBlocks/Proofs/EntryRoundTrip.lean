import EnumBlocks.Proofs.Entry

/-!
Entries and their lines. Reading the line of an entry gives the entry back, trimmed, and what was
read from any text is read again, unchanged, from its own line. A value that was read may begin with
two slashes, as the first character of a value is taken unseen, but has none behind that, since they
would have begun the comment.
-/

namespace EnumBlocks

theorem entryEnd?_commentMark {comment : Text} (oneLine : '\n' ∉ comment) :
    entryEnd? ('/' :: '/' :: comment) = some comment := by
  have kept : Text.dropBlank ('/' :: '/' :: comment) = '/' :: '/' :: comment :=
    Text.dropBlank_cons (by decide) _
  rw [entryEnd?, kept]
  exact if_neg oneLine

theorem not_mem_of_commentAtEnd? {text comment : Text}
    (found : commentAtEnd? text = some comment) : '\n' ∉ comment := by
  unfold commentAtEnd? at found
  split at found
  · cases found
    exact List.not_mem_nil
  · split at found
    · contradiction
    · rename_i oneLine
      cases found
      exact oneLine
  · contradiction

theorem not_mem_of_entryEnd? {text comment : Text} (found : entryEnd? text = some comment) :
    '\n' ∉ comment := by
  unfold entryEnd? at found
  split at found <;> exact not_mem_of_commentAtEnd? found

theorem valueAndComment?_eq_some {text value comment : Text} (oneLine : '\n' ∉ text)
    (found : valueAndComment? text = some (value, comment)) :
    value <+: text ∧ ',' ∉ value ∧ ¬ commentMark <:+: value.tail ∧ '\n' ∉ comment := by
  induction text generalizing value with
  | nil => contradiction
  | cons c rest inductionHypothesis =>
      rw [List.mem_cons, not_or] at oneLine
      rw [valueAndComment?] at found
      split at found
      · contradiction
      · rename_i noComma
        split at found
        · rename_i ended
          cases found
          exact ⟨⟨rest, rfl⟩, by simpa [eq_comm] using noComma, by simp [commentMark],
            not_mem_of_entryEnd? ended⟩
        · rename_i unended
          obtain ⟨⟨later, _⟩, laterFound, equality⟩ := Option.map_eq_some_iff.mp found
          cases equality
          obtain ⟨isStart, laterComma, laterComment, commentLine⟩ :=
            inductionHypothesis oneLine.2 laterFound
          refine ⟨List.cons_prefix_cons.mpr ⟨rfl, isStart⟩, ?_, ?_, commentLine⟩
          · rw [List.mem_cons, not_or]
            exact ⟨Ne.symm noComma, laterComma⟩
          · rw [List.tail_cons]
            intro within
            cases later with
            | nil => simp [commentMark] at within
            | cons d others =>
                rcases List.infix_cons_iff.mp within with atStart | behind
                -- The slashes would have ended the value before they were reached.
                · obtain ⟨remaining, rfl⟩ := atStart.trans isStart
                  have remainingLine : '\n' ∉ remaining := fun membership =>
                    oneLine.2 (List.mem_append_right commentMark membership)
                  have ended := entryEnd?_commentMark remainingLine
                  rw [show commentMark ++ remaining = '/' :: '/' :: remaining from rfl, ended]
                    at unended
                  contradiction
                · exact laterComment behind

theorem strip_isPrefix {value text : Text} (isStart : value <+: Text.dropBlank text) :
    Text.strip value <+: value := by
  have kept : Text.dropBlank value = value := by
    cases value with
    | nil => rfl
    | cons c rest =>
        obtain ⟨others, whole⟩ := isStart
        have same : Text.dropBlank (Text.dropBlank text) = Text.dropBlank text :=
          List.dropWhile_idempotent Text.isBlank text
        rw [← whole, List.cons_append, Text.dropBlank, List.dropWhile_eq_self_iff] at same
        exact Text.dropBlank_cons (by simpa using same) rest
  obtain ⟨blanks, -, whole⟩ := Text.exists_stripEnd_append value
  rw [Text.strip, kept]
  exact ⟨blanks, whole.symm⟩

theorem afterEquals?_eq_some {text value comment : Text} (oneLine : '\n' ∉ text)
    (found : afterEquals? text = some (value, comment)) :
    ',' ∉ value ∧ ¬ commentMark <:+: (Text.strip value).tail ∧ '\n' ∉ comment := by
  have dropped : '\n' ∉ Text.dropBlank text := fun membership =>
    oneLine ((List.dropWhile_suffix _).subset membership)
  unfold afterEquals? at found
  split at found
  · rename_i parts read
    cases found
    obtain ⟨isStart, noComma, noComment, commentLine⟩ := valueAndComment?_eq_some dropped read
    refine ⟨noComma, fun within => noComment ?_, commentLine⟩
    rw [← List.drop_one] at within ⊢
    exact within.trans ((strip_isPrefix isStart).drop 1).isInfix
  · split at found
    · contradiction
    · obtain ⟨_, ended, equality⟩ := Option.map_eq_some_iff.mp found
      cases equality
      exact ⟨List.not_mem_nil, by simp [commentMark], not_mem_of_entryEnd? ended⟩

theorem afterName?_eq_some {text value comment : Text} (oneLine : '\n' ∉ text)
    (found : afterName? text = some (value, comment)) :
    ',' ∉ value ∧ ¬ commentMark <:+: (Text.strip value).tail ∧ '\n' ∉ comment := by
  unfold afterName? at found
  split at found
  · rename_i rest shape
    apply afterEquals?_eq_some _ found
    intro membership
    apply oneLine
    apply (List.dropWhile_suffix Text.isBlank).subset
    rw [← Text.dropBlank, shape]
    exact List.mem_cons_of_mem _ membership
  · obtain ⟨_, ended, equality⟩ := Option.map_eq_some_iff.mp found
    cases equality
    exact ⟨List.not_mem_nil, by simp [commentMark], not_mem_of_entryEnd? ended⟩

/-- What was read from one line has no comma in its value, no comment that could begin behind the
first character of it, and a comment of one line. -/
theorem parse?_eq_some_of_oneLine {text : Text} {entry : Entry} (oneLine : '\n' ∉ text)
    (read : Entry.parse? text = some entry) :
    ',' ∉ entry.value ∧ ¬ commentMark <:+: entry.value.tail ∧ '\n' ∉ entry.comment := by
  unfold Entry.parse? at read
  simp only at read
  split at read
  · contradiction
  · obtain ⟨⟨value, comment⟩, found, rfl⟩ := Option.map_eq_some_iff.mp read
    have remaining : '\n' ∉ (Text.strip text).dropWhile Text.isWord := fun membership =>
      oneLine (Text.mem_of_mem_strip ((List.dropWhile_suffix _).subset membership))
    obtain ⟨noComma, noComment, commentLine⟩ := afterName?_eq_some remaining found
    obtain ⟨blanks, -, whole⟩ := Text.exists_stripEnd_append comment
    refine ⟨fun membership => noComma (Text.mem_of_mem_strip membership), noComment, ?_⟩
    intro membership
    apply commentLine
    rw [whole]
    exact List.mem_append_left _ membership

theorem parse?_render_of_parse? {text : Text} {entry : Entry} (oneLine : '\n' ∉ text)
    (read : Entry.parse? text = some entry) {indent : Text}
    (blank : Text.isBlankText indent = true) : Entry.parse? (entry.render indent) = some entry := by
  obtain ⟨named, trimmed⟩ := parse?_eq_some read
  obtain ⟨noComma, noComment, commentLine⟩ := parse?_eq_some_of_oneLine oneLine read
  have value : Text.strip entry.value = entry.value := congrArg Entry.value trimmed
  rw [parse?_render_of_tail named blank noComma (value.symm ▸ noComment) commentLine, trimmed]

section Parts

variable {text value comment : Text}

theorem subset_of_commentAtEnd? (found : commentAtEnd? text = some comment) : comment ⊆ text := by
  unfold commentAtEnd? at found
  split at found
  · cases found
    exact List.nil_subset _
  · split at found
    · contradiction
    · cases found
      exact List.subset_append_right commentMark _
  · contradiction

theorem subset_of_entryEnd? (found : entryEnd? text = some comment) : comment ⊆ text := by
  have rest : Text.dropBlank text ⊆ text := (List.dropWhile_suffix _).subset
  unfold entryEnd? at found
  split at found
  · rename_i others shape
    have later : Text.dropBlank others ⊆ others := (List.dropWhile_suffix _).subset
    rw [shape] at rest
    exact List.Subset.trans (subset_of_commentAtEnd? found)
      (List.Subset.trans later (List.Subset.trans (List.subset_cons_self _ _) rest))
  · exact List.Subset.trans (subset_of_commentAtEnd? found) rest

theorem subset_of_valueAndComment? (found : valueAndComment? text = some (value, comment)) :
    value ⊆ text ∧ comment ⊆ text := by
  induction text generalizing value with
  | nil => contradiction
  | cons c rest inductionHypothesis =>
      rw [valueAndComment?] at found
      split at found
      · contradiction
      · split at found
        · rename_i ended
          cases found
          exact ⟨List.cons_subset_cons c (List.nil_subset _),
            List.subset_cons_of_subset c (subset_of_entryEnd? ended)⟩
        · obtain ⟨⟨later, _⟩, laterFound, equality⟩ := Option.map_eq_some_iff.mp found
          cases equality
          obtain ⟨valueWithin, commentWithin⟩ := inductionHypothesis laterFound
          exact ⟨List.cons_subset_cons c valueWithin, List.subset_cons_of_subset c commentWithin⟩

theorem subset_of_afterEquals? (found : afterEquals? text = some (value, comment)) :
    value ⊆ text ∧ comment ⊆ text := by
  have rest : Text.dropBlank text ⊆ text := (List.dropWhile_suffix _).subset
  unfold afterEquals? at found
  split at found
  · rename_i parts read
    cases found
    obtain ⟨valueWithin, commentWithin⟩ := subset_of_valueAndComment? read
    exact ⟨List.Subset.trans valueWithin rest, List.Subset.trans commentWithin rest⟩
  · split at found
    · contradiction
    · obtain ⟨_, ended, equality⟩ := Option.map_eq_some_iff.mp found
      cases equality
      exact ⟨List.nil_subset _, List.Subset.trans (subset_of_entryEnd? ended) rest⟩

theorem subset_of_afterName? (found : afterName? text = some (value, comment)) :
    value ⊆ text ∧ comment ⊆ text := by
  have rest : Text.dropBlank text ⊆ text := (List.dropWhile_suffix _).subset
  unfold afterName? at found
  split at found
  · rename_i others shape
    rw [shape] at rest
    have later := List.Subset.trans (List.subset_cons_self _ _) rest
    obtain ⟨valueWithin, commentWithin⟩ := subset_of_afterEquals? found
    exact ⟨List.Subset.trans valueWithin later, List.Subset.trans commentWithin later⟩
  · obtain ⟨_, ended, equality⟩ := Option.map_eq_some_iff.mp found
    cases equality
    exact ⟨List.nil_subset _, List.Subset.trans (subset_of_entryEnd? ended) rest⟩

theorem subset_of_parse? {entry : Entry} (read : Entry.parse? text = some entry) :
    entry.value ⊆ text ∧ entry.comment ⊆ text := by
  unfold Entry.parse? at read
  simp only at read
  split at read
  · contradiction
  · obtain ⟨⟨value, comment⟩, found, rfl⟩ := Option.map_eq_some_iff.mp read
    obtain ⟨valueWithin, commentWithin⟩ := subset_of_afterName? found
    have rest : (Text.strip text).dropWhile Text.isWord ⊆ text :=
      List.Subset.trans (List.dropWhile_suffix _).subset (Text.strip_infix text).subset
    obtain ⟨blanks, -, whole⟩ := Text.exists_stripEnd_append comment
    have ended : Text.stripEnd comment ⊆ comment := by
      conv_rhs => rw [whole]
      exact List.subset_append_left _ _
    exact ⟨List.Subset.trans (Text.strip_infix value).subset (List.Subset.trans valueWithin rest),
      List.Subset.trans ended (List.Subset.trans commentWithin rest)⟩

end Parts

/-- Printing and reading an entry undo each other. An entry whose value could not be taken for more
than a value is read back, trimmed, from the line it is written as; and every entry that was read
from one line, whatever its value, is read back as it is. -/
theorem parse?_render_and_reread {indent : Text}
    (blank : Text.isBlankText indent = true) :
    (∀ entry : Entry, IsName entry.name → ',' ∉ entry.value → ¬ commentMark <:+: entry.value →
      '\n' ∉ entry.comment → Entry.parse? (entry.render indent) = some entry.trimmed) ∧
    ∀ (text : Text) (entry : Entry), '\n' ∉ text → Entry.parse? text = some entry →
      Entry.parse? (entry.render indent) = some entry :=
  ⟨fun _ named noComma noComment oneLine => parse?_render named blank noComma noComment oneLine,
    fun _ _ oneLine read => parse?_render_of_parse? oneLine read blank⟩

/-- A comment with a comma and slashes of its own, and a value that begins with slashes. -/
theorem parse?_render_and_reread_slashes :
    Entry.parse? (Entry.render ⟨['A'], [' ', '1', '/'], [' ', ',', '/', '/', ' ']⟩ ['\t']) =
        some ⟨['A'], ['1', '/'], [' ', ',', '/', '/']⟩ ∧
      Entry.parse? ['A', '=', '/', '/', 'x', ' ', '/', '/', ' ', 'y'] =
        some ⟨['A'], ['/', '/', 'x'], [' ', 'y']⟩ ∧
      Entry.parse? (Entry.render ⟨['A'], ['/', '/', 'x'], [' ', 'y']⟩ ['\t']) =
        some ⟨['A'], ['/', '/', 'x'], [' ', 'y']⟩ := by
  have read : Entry.parse? ['A', '=', '/', '/', 'x', ' ', '/', '/', ' ', 'y'] =
      some ⟨['A'], ['/', '/', 'x'], [' ', 'y']⟩ := by decide
  have blank : Text.isBlankText ['\t'] = true := by decide
  obtain ⟨written, reread⟩ := parse?_render_and_reread blank
  refine ⟨?_, read, reread _ _ (by decide) read⟩
  exact written ⟨['A'], [' ', '1', '/'], [' ', ',', '/', '/', ' ']⟩ (by decide) (by decide)
    (by decide) (by decide)

end EnumBlocks
