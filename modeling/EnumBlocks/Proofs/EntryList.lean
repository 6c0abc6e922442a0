import EnumBlocks.Proofs.EntryText

/-!
Lists of entries on one line. However a list is spaced, and whether or not a comma ends it, it is cut
into its entries, both where every piece has to be one and where other pieces are dropped.
-/

namespace EnumBlocks

/-- The texts that list some entries, with commas between them and maybe one at the end. -/
inductive ListText : List Entry → Text → Prop where
  | single {entry : Entry} {text : Text} (spelled : entry.SpelledAs text) : ListText [entry] text
  | ended {entry : Entry} {text blanks : Text} (spelled : entry.SpelledAs text)
      (blank : Text.isBlankText blanks = true) : ListText [entry] (text ++ ',' :: blanks)
  | cons {entry : Entry} {entries : List Entry} {text rest : Text} (spelled : entry.SpelledAs text)
      (others : ListText entries rest) : ListText (entry :: entries) (text ++ ',' :: rest)

theorem hasInnerComma_append {front rest : Text} {c : Char} (membership : c ∈ rest)
    (word : Text.isWord c = true) : hasInnerComma (front ++ ',' :: rest) = true := by
  obtain ⟨before, after, rfl⟩ := List.append_of_mem membership
  have noComma : (c == ',') = false := by
    rw [beq_eq_false_iff_ne]
    rintro rfl
    exact absurd word (by decide)
  have trimmed : Text.strip (front ++ ',' :: (before ++ c :: after)) =
      (Text.dropBlank front ++ ',' :: before) ++ c :: Text.stripEnd after := by
    rw [Text.strip_append_cons (by decide),
      Text.stripEnd_append_cons (Text.not_isBlank_of_isWord word), List.append_assoc,
      List.cons_append]
  have cut := @Text.dropEndWhile_append_cons (· == ',') c noComma
    (Text.dropBlank front ++ ',' :: before) (Text.stripEnd after)
  rw [hasInnerComma, trimmed, cut]
  simp

theorem pieces_eq_singleton {mark : Char} {text : Text} (absent : mark ∉ text) :
    Text.pieces mark text = [text] := by
  induction text with
  | nil => rfl
  | cons c rest inductionHypothesis =>
      rw [List.mem_cons, not_or] at absent
      rw [Text.pieces, if_neg (Ne.symm absent.1), inductionHypothesis absent.2, Text.consFirst]

theorem pieces_append {mark : Char} {text : Text} (absent : mark ∉ text) (rest : Text) :
    Text.pieces mark (text ++ mark :: rest) = text :: Text.pieces mark rest := by
  induction text with
  | nil => rw [List.nil_append, Text.pieces, if_pos rfl]
  | cons c tail inductionHypothesis =>
      rw [List.mem_cons, not_or] at absent
      rw [List.cons_append, Text.pieces, if_neg (Ne.symm absent.1), inductionHypothesis absent.2,
        Text.consFirst]

theorem listPieces_of_isBlankText {blanks : Text} (blank : Text.isBlankText blanks = true) :
    listPieces blanks = [] := by
  have absent : ',' ∉ blanks := Text.not_mem_of_isBlankText blank (by decide)
  rw [listPieces, pieces_eq_singleton absent, List.map_singleton, Text.strip_of_isBlankText blank]
  rfl

theorem listPieces_eq_singleton {text : Text} (absent : ',' ∉ text)
    (written : Text.isBlankText text = false) : listPieces text = [Text.strip text] := by
  rw [listPieces, pieces_eq_singleton absent, List.map_singleton,
    List.filter_cons_of_pos (by simpa using Text.strip_ne_nil written), List.filter_nil]

theorem listPieces_append {text : Text} (absent : ',' ∉ text)
    (written : Text.isBlankText text = false) (rest : Text) :
    listPieces (text ++ ',' :: rest) = Text.strip text :: listPieces rest := by
  rw [listPieces, pieces_append absent, List.map_cons,
    List.filter_cons_of_pos (by simpa using Text.strip_ne_nil written), listPieces]

theorem mapM_eq_some_of_map {α β : Type} {read : α → Option β} {pieces : List α} {found : List β}
    (each : pieces.map read = found.map some) : pieces.mapM read = some found := by
  induction pieces generalizing found with
  | nil =>
      obtain rfl := List.map_eq_nil_iff.mp each.symm
      rfl
  | cons piece rest inductionHypothesis =>
      cases found with
      | nil => contradiction
      | cons first others =>
          rw [List.map_cons, List.map_cons, List.cons.injEq] at each
          rw [List.mapM_cons, each.1, inductionHypothesis each.2]
          rfl

namespace ListText

variable {entries : List Entry} (listed : ∀ entry ∈ entries, entry.Listed) {text : Text}
  (list : ListText entries text)

include listed list in
theorem not_mem {mark : Char} (noBlank : Text.isBlank mark = false)
    (noWord : Text.isWord mark = false) (noSign : mark ∉ ['=', ','])
    (absent : ∀ entry ∈ entries, mark ∉ entry.value) : mark ∉ text := by
  simp only [List.mem_cons, List.not_mem_nil, or_false, not_or] at noSign
  induction list with
  | single spelled =>
      rw [List.forall_mem_singleton] at listed absent
      exact spelled.not_mem listed.plain.named noBlank noWord noSign.1 absent
  | ended spelled blank =>
      rw [List.forall_mem_singleton] at listed absent
      rw [List.mem_append, List.mem_cons, not_or, not_or]
      exact ⟨spelled.not_mem listed.plain.named noBlank noWord noSign.1 absent, noSign.2,
        Text.not_mem_of_isBlankText blank noBlank⟩
  | cons spelled others inductionHypothesis =>
      rw [List.forall_mem_cons] at listed absent
      rw [List.mem_append, List.mem_cons, not_or, not_or]
      exact ⟨spelled.not_mem listed.1.plain.named noBlank noWord noSign.1 absent.1, noSign.2,
        inductionHypothesis listed.2 absent.2⟩

include listed list in
theorem plain : quotationMark ∉ text ∧ '/' ∉ text ∧ Braceless text :=
  ⟨list.not_mem listed (by decide) (by decide) (by decide)
      fun entry membership => (listed entry membership).plain.unquoted,
    list.not_mem listed (by decide) (by decide) (by decide)
      fun entry membership => (listed entry membership).slashless,
    list.not_mem listed (by decide) (by decide) (by decide)
      fun entry membership => (listed entry membership).plain.braceless.1,
    list.not_mem listed (by decide) (by decide) (by decide)
      fun entry membership => (listed entry membership).plain.braceless.2⟩

include list in
theorem exists_name :
    ∃ entry ∈ entries, ∃ before gap rest, Text.isBlankText before = true ∧
      Text.isBlankText gap = true ∧ (∀ c ∈ rest.head?, c = '=' ∨ c = ',') ∧
      text = before ++ (entry.name ++ (gap ++ rest)) := by
  have first : ∀ {entry : Entry} {own : Text}, entry.SpelledAs own → ∀ behind : Text,
      ∃ before gap rest, Text.isBlankText before = true ∧ Text.isBlankText gap = true ∧
        (∀ c ∈ rest.head?, c = '=' ∨ c = ',') ∧
        own ++ ',' :: behind = before ++ (entry.name ++ (gap ++ rest)) := by
    intro entry own spelled behind
    obtain ⟨before, gap, rest, beforeBlank, gapBlank, sign, rfl⟩ := spelled.exists_name
    refine ⟨before, gap, rest ++ ',' :: behind, beforeBlank, gapBlank, ?_, by simp⟩
    cases rest with
    | nil => simp
    | cons c tail => simpa using Or.inl (sign c rfl)
  cases list with
  | @single entry _ spelled =>
      obtain ⟨before, gap, rest, beforeBlank, gapBlank, sign, rfl⟩ := spelled.exists_name
      exact ⟨entry, List.mem_singleton_self entry, before, gap, rest, beforeBlank, gapBlank,
        fun c membership => .inl (sign c membership), rfl⟩
  | ended spelled blank => exact ⟨_, List.mem_singleton_self _, first spelled _⟩
  | cons spelled others => exact ⟨_, List.mem_cons_self, first spelled _⟩

include listed list in
theorem exists_isWord : ∃ c ∈ text, Text.isWord c = true := by
  obtain ⟨entry, membership, before, gap, rest, -, -, -, rfl⟩ := list.exists_name
  obtain ⟨first, others, shape, word⟩ := (listed entry membership).plain.named.exists_cons
  exact ⟨first, by simp [shape], word⟩

include listed list in
theorem isBlankText_eq_false : Text.isBlankText text = false := by
  obtain ⟨c, membership, word⟩ := list.exists_isWord listed
  exact Text.isBlankText_eq_false_of_isWord membership word

include listed list in
theorem dropBlank : ListText entries (Text.dropBlank text) := by
  cases list with
  | single spelled => exact .single (spelled.dropBlank (listed _ List.mem_cons_self).plain.named)
  | ended spelled blank =>
      rw [Text.dropBlank_append_cons (by decide)]
      exact .ended (spelled.dropBlank (listed _ List.mem_cons_self).plain.named) blank
  | cons spelled others =>
      rw [Text.dropBlank_append_cons (by decide)]
      exact .cons (spelled.dropBlank (listed _ List.mem_cons_self).plain.named) others

include listed list in
theorem stripEnd : ListText entries (Text.stripEnd text) := by
  induction list with
  | single spelled => exact .single (spelled.stripEnd (listed _ List.mem_cons_self))
  | ended spelled blank =>
      rw [Text.stripEnd_append_cons (by decide), Text.stripEnd_eq_nil_iff.mpr blank]
      exact .ended spelled rfl
  | cons spelled others inductionHypothesis =>
      rw [Text.stripEnd_append_cons (by decide)]
      exact .cons spelled (inductionHypothesis (List.forall_mem_cons.mp listed).2)

include listed list in
theorem strip : ListText entries (Text.strip text) :=
  (list.dropBlank listed).stripEnd listed

include listed list in
theorem map_parse?_listPieces : (listPieces text).map Entry.parse? = entries.map some := by
  have alone : ∀ {entry : Entry} {own : Text}, entry.Listed → entry.SpelledAs own →
      ',' ∉ own ∧ Text.isBlankText own = false ∧ Entry.parse? (Text.strip own) = some entry := by
    intro entry own listed spelled
    have read := parse?_spelled listed spelled .nil
    rw [List.append_nil] at read
    exact ⟨spelled.not_mem listed.plain.named (by decide) (by decide) (by decide)
        listed.plain.noComma, spelled.isBlankText_eq_false listed.plain.named,
      (parse?_strip own).trans read⟩
  induction list with
  | single spelled =>
      obtain ⟨noComma, written, read⟩ := alone (listed _ List.mem_cons_self) spelled
      rw [listPieces_eq_singleton noComma written, List.map_singleton, read, List.map_singleton]
  | ended spelled blank =>
      obtain ⟨noComma, written, read⟩ := alone (listed _ List.mem_cons_self) spelled
      rw [listPieces_append noComma written, listPieces_of_isBlankText blank, List.map_singleton,
        read, List.map_singleton]
  | cons spelled others inductionHypothesis =>
      obtain ⟨noComma, written, read⟩ := alone (listed _ List.mem_cons_self) spelled
      rw [listPieces_append noComma written, List.map_cons, read,
        inductionHypothesis (List.forall_mem_cons.mp listed).2, List.map_cons]

include listed list in
theorem inlineEntries_eq : (inlineEntries text).1 = entries := by
  have each := list.map_parse?_listPieces listed
  have read : (listPieces text).filterMap Entry.parse? =
      ((listPieces text).map Entry.parse?).filterMap id := by
    rw [List.filterMap_map]
    rfl
  rw [inlineEntries, read, each, List.filterMap_map]
  exact List.filterMap_some

include listed list in
/-- Where a line is a single entry or a list of nothing but entries, it is read as the list. -/
theorem lineEntries_eq : lineEntries text = entries := by
  obtain ⟨unquoted, slashless, -⟩ := list.plain listed
  have code := codeOf_eq_self unquoted slashless
  have every := mapM_eq_some_of_map (list.map_parse?_listPieces listed)
  cases list with
  | single spelled =>
      have read := parse?_spelled (listed _ List.mem_cons_self) spelled .nil
      rw [List.append_nil] at read
      rw [lineEntries, read]
  | ended spelled blank =>
      rw [lineEntries, parse?_spelled (listed _ List.mem_cons_self) spelled (.comma_cons blank)]
  | cons spelled others =>
      obtain ⟨c, membership, word⟩ := others.exists_isWord (List.forall_mem_cons.mp listed).2
      have behind := Text.isBlankText_eq_false_of_isWord membership word
      rw [lineEntries, parse?_list slashless behind, code,
        if_pos (hasInnerComma_append membership word), every]
      rfl

end ListText

end EnumBlocks
