import EnumBlocks.Proofs.Session

/-!
The names that edits let into a document. A name should be an ASCII letter or low line followed by
letters, digits and low lines. The check lets through these names and each of them with one line
feed behind it, and no other; the number that makes an added name unique neither adds nor removes a
line feed.
-/

namespace EnumBlocks

/-- A name as it should be: an ASCII letter or low line first, and only letters, digits and low
lines. -/
structure IsProperName (name : Text) : Prop where
  start : ∃ c, name.head? = some c ∧ isIdentifierStart c = true
  parts : ∀ c ∈ name, isIdentifierPart c = true

/-- A name that the check lets through: a proper name, alone or with a line feed behind it. -/
def IsAdmittedName (name : Text) : Prop :=
  IsProperName name ∨ ∃ proper, IsProperName proper ∧ name = proper ++ ['\n']

theorem isIdentifierPart_of_isIdentifierStart {c : Char} (start : isIdentifierStart c = true) :
    isIdentifierPart c = true := by
  rw [isIdentifierStart, Bool.or_eq_true] at start
  rw [isIdentifierPart, Char.isAlphanum, Bool.or_eq_true, Bool.or_eq_true]
  rcases start with letter | lowLine
  · exact .inl (.inl letter)
  · exact .inr lowLine

theorem isIdentifierPart_lineFeed : isIdentifierPart '\n' = false := by
  decide

theorem isIdentifierPart_of_mem_decimal {number : Nat} :
    ∀ c ∈ Text.decimal number, isIdentifierPart c = true := by
  intro c membership
  have digit : c.isDigit = true := Nat.isDigit_of_mem_toDigits (by decide) (by decide) membership
  rw [isIdentifierPart, Char.isAlphanum, digit, Bool.or_true, Bool.true_or]

namespace IsProperName

variable {name : Text}

theorem lineFeed_notMem (proper : IsProperName name) : '\n' ∉ name := by
  intro membership
  have part := proper.parts '\n' membership
  rw [isIdentifierPart_lineFeed] at part
  contradiction

theorem append (proper : IsProperName name) {more : Text}
    (parts : ∀ c ∈ more, isIdentifierPart c = true) : IsProperName (name ++ more) := by
  obtain ⟨c, first, start⟩ := proper.start
  refine ⟨⟨c, ?_, start⟩, List.forall_mem_append.mpr ⟨proper.parts, parts⟩⟩
  rw [List.head?_append, first, Option.some_or]

theorem cons_iff {c : Char} {rest : Text} :
    IsProperName (c :: rest) ↔
      isIdentifierStart c = true ∧ ∀ d ∈ rest, isIdentifierPart d = true := by
  constructor
  · intro proper
    obtain ⟨first, head, start⟩ := proper.start
    cases head
    exact ⟨start, (List.forall_mem_cons.mp proper.parts).2⟩
  · rintro ⟨start, parts⟩
    exact ⟨⟨c, rfl, start⟩,
      List.forall_mem_cons.mpr ⟨isIdentifierPart_of_isIdentifierStart start, parts⟩⟩

end IsProperName

theorem isProperName_iff_of_isAdmittedName {name : Text} (admitted : IsAdmittedName name) :
    IsProperName name ↔ '\n' ∉ name := by
  constructor
  · exact IsProperName.lineFeed_notMem
  · intro oneLine
    rcases admitted with proper | ⟨proper, -, equality⟩
    · exact proper
    · rw [equality] at oneLine
      exact absurd (List.mem_append_right proper (List.mem_singleton_self '\n')) oneLine

theorem isIdentifierTail_iff {text : Text} :
    isIdentifierTail text = true ↔
      (∀ c ∈ text, isIdentifierPart c = true) ∨
        ∃ front : Text, (∀ c ∈ front, isIdentifierPart c = true) ∧ text = front ++ ['\n'] := by
  induction text with
  | nil => simp [isIdentifierTail]
  | cons c rest inductionHypothesis =>
      constructor
      · intro tail
        unfold isIdentifierTail at tail
        split at tail
        · contradiction
        · exact .inr ⟨[], by simp, by assumption⟩
        · rename_i shape
          cases shape
          rw [Bool.and_eq_true, inductionHypothesis] at tail
          rcases tail with ⟨part, parts | ⟨front, parts, equality⟩⟩
          · exact .inl (List.forall_mem_cons.mpr ⟨part, parts⟩)
          · exact .inr ⟨c :: front, List.forall_mem_cons.mpr ⟨part, parts⟩, by rw [equality]; rfl⟩
      · intro shape
        have longer (part : isIdentifierPart c = true) (tail : isIdentifierTail rest = true) :
            isIdentifierTail (c :: rest) = true := by
          unfold isIdentifierTail
          split
          · rfl
          · rfl
          · rename_i shape
            cases shape
            rw [part, tail, Bool.and_self]
        rcases shape with parts | ⟨front, parts, equality⟩
        · obtain ⟨part, parts⟩ := List.forall_mem_cons.mp parts
          exact longer part (inductionHypothesis.mpr (.inl parts))
        · cases front with
          | nil =>
              cases equality
              rfl
          | cons d front =>
              cases equality
              obtain ⟨part, parts⟩ := List.forall_mem_cons.mp parts
              exact longer part (inductionHypothesis.mpr (.inr ⟨front, parts, rfl⟩))

/-- What the check of a name lets through. -/
theorem isIdentifier_iff {name : Text} : isIdentifier name = true ↔ IsAdmittedName name := by
  cases name with
  | nil =>
      refine ⟨fun checked => Bool.noConfusion checked, fun admitted => ?_⟩
      rcases admitted with proper | ⟨proper, -, equality⟩
      · obtain ⟨c, head, -⟩ := proper.start
        contradiction
      · simp at equality
  | cons c rest =>
      rw [isIdentifier, Bool.and_eq_true, isIdentifierTail_iff, IsAdmittedName,
        IsProperName.cons_iff, and_or_left]
      refine or_congr Iff.rfl ⟨?_, ?_⟩
      · rintro ⟨start, front, parts, equality⟩
        exact ⟨c :: front, IsProperName.cons_iff.mpr ⟨start, parts⟩, by rw [equality]; rfl⟩
      · rintro ⟨front, proper, equality⟩
        cases front with
        | nil =>
            obtain ⟨d, head, -⟩ := proper.start
            contradiction
        | cons d front =>
            cases equality
            obtain ⟨start, parts⟩ := IsProperName.cons_iff.mp proper
            exact ⟨start, front, parts, rfl⟩

theorem exists_freshName_eq (taken : List Text) (name : Text) :
    ∃ suffix, freshName taken name = candidateName name suffix := by
  unfold freshName
  split
  · exact ⟨_, rfl⟩
  · exact ⟨_, rfl⟩

theorem lineFeed_mem_candidateName_iff {name : Text} {suffix : Nat} :
    '\n' ∈ candidateName name suffix ↔ '\n' ∈ name := by
  cases suffix with
  | zero => exact Iff.rfl
  | succ suffix =>
      rw [candidateName, List.mem_append, or_iff_left]
      intro membership
      have part := isIdentifierPart_of_mem_decimal '\n' membership
      rw [isIdentifierPart_lineFeed] at part
      contradiction

theorem isProperName_candidateName_iff {name : Text} (admitted : IsAdmittedName name)
    (suffix : Nat) : IsProperName (candidateName name suffix) ↔ IsProperName name := by
  rw [isProperName_iff_of_isAdmittedName admitted]
  constructor
  · intro proper membership
    exact proper.lineFeed_notMem (lineFeed_mem_candidateName_iff.mpr membership)
  · intro oneLine
    have proper := (isProperName_iff_of_isAdmittedName admitted).mpr oneLine
    cases suffix with
    | zero => exact proper
    | succ suffix => exact proper.append isIdentifierPart_of_mem_decimal

namespace Document

theorem exists_create_eq_ok_iff {document : Document} {name : Text} :
    (∃ answer, document.create name = .ok answer) ↔
      IsAdmittedName name ∧ name ∉ document.outline.names := by
  rw [← isIdentifier_iff]
  constructor
  · rintro ⟨⟨block, next⟩, done⟩
    obtain ⟨identifier, absent, -⟩ := create_eq_ok done
    exact ⟨identifier, absent⟩
  · rintro ⟨identifier, absent⟩
    have unused : document.outline.contains name = false := by
      simpa [Outline.contains] using absent
    exact ⟨_, by rw [create, identifier, unused]; rfl⟩

end Document

namespace Block

variable {block : Block} {name : Text}

theorem add_eq_ok_iff {value comment : Text} {entry : Entry} {edited : Block} :
    block.add name value comment = .ok (entry, edited) ↔
      IsAdmittedName name ∧ entry = ⟨freshName block.entryNames name, value, comment⟩ ∧
        edited = block.append [entry] := by
  rw [← isIdentifier_iff, add]
  split
  · rename_i identifier
    constructor
    · intro done
      cases done
      exact ⟨identifier, rfl, rfl⟩
    · rintro ⟨-, rfl, rfl⟩
      rfl
  · rename_i refused
    exact ⟨fun done => by contradiction, fun done => absurd done.1 refused⟩

theorem exists_rename_eq_ok_iff {index : Int} :
    (∃ edited, block.rename index name = .ok edited) ↔
      ∃ place entry, position? block.entries.length index = some place ∧
        block.entries[place]? = some entry ∧
        (name = entry.name ∨
          IsAdmittedName name ∧ name ∉ block.entryNames.eraseIdx place) := by
  rw [← isIdentifier_iff, rename]
  cases placed : position? block.entries.length index with
  | none => simp
  | some place =>
      cases found : block.entries[place]? with
      | none => simp [found]
      | some entry =>
          by_cases own : name = entry.name
          · simp [found, own]
          · by_cases refused : isIdentifier name = true
            · by_cases taken : name ∈ block.entryNames.eraseIdx place
              · simp [found, own, refused, hasOther, taken]
              · simp [found, own, refused, hasOther, taken]
            · simp [found, own, refused]

end Block

/-- What the three ways of naming by an edit let in, in every state: a block is created, an entry is
added and an entry is given another name exactly if the name is admitted and not in use where it
must not be. The name that an added entry has in the end is the given one or that with a number, and
is proper exactly if the given one is; and an admitted name is proper exactly if it holds no line
feed. -/
theorem names_accepted (name : Text) :
    (∀ document : Document, (∃ answer, document.create name = .ok answer) ↔
      IsAdmittedName name ∧ name ∉ document.outline.names) ∧
    (∀ (block : Block) (value comment : Text),
      ((∃ answer, block.add name value comment = .ok answer) ↔ IsAdmittedName name) ∧
      ∀ entry edited, block.add name value comment = .ok (entry, edited) →
        edited = block.append [entry] ∧ (∃ suffix, entry.name = candidateName name suffix) ∧
          (IsProperName entry.name ↔ IsProperName name)) ∧
    (∀ (block : Block) (index : Int), (∃ edited, block.rename index name = .ok edited) ↔
      ∃ place entry, position? block.entries.length index = some place ∧
        block.entries[place]? = some entry ∧
        (name = entry.name ∨ IsAdmittedName name ∧ name ∉ block.entryNames.eraseIdx place)) ∧
    (IsProperName name ↔ IsAdmittedName name ∧ '\n' ∉ name) := by
  refine ⟨fun document => document.exists_create_eq_ok_iff, fun block value comment => ⟨?_, ?_⟩,
    fun block index => block.exists_rename_eq_ok_iff, ?_⟩
  · constructor
    · rintro ⟨⟨entry, edited⟩, done⟩
      exact (Block.add_eq_ok_iff.mp done).1
    · intro admitted
      exact ⟨_, Block.add_eq_ok_iff.mpr ⟨admitted, rfl, rfl⟩⟩
  · intro entry edited done
    obtain ⟨admitted, named, appended⟩ := Block.add_eq_ok_iff.mp done
    obtain ⟨suffix, candidate⟩ := exists_freshName_eq block.entryNames name
    have stored : entry.name = candidateName name suffix := by
      rw [named]
      exact candidate
    refine ⟨appended, ⟨suffix, stored⟩, ?_⟩
    rw [stored]
    exact isProperName_candidateName_iff admitted suffix
  · constructor
    · intro proper
      exact ⟨.inl proper, proper.lineFeed_notMem⟩
    · rintro ⟨admitted, oneLine⟩
      exact (isProperName_iff_of_isAdmittedName admitted).mpr oneLine

/-- A name of two lines is let in: a block is created under it, and the second entry that is added
under it gets a name that is not even admitted. -/
theorem names_accepted_twoLines :
    ¬ IsProperName ['A', '\n'] ∧
      (∃ answer, Document.create { path := Path.ofText ['T'] } ['A', '\n'] = .ok answer) ∧
      (∃ edited, Block.rename ⟨['E'], [⟨['X'], [], []⟩]⟩ 0 ['A', '\n'] = .ok edited) ∧
      ∃ entry edited, Block.add ⟨['E'], [⟨['A', '\n'], [], []⟩]⟩ ['A', '\n'] [] [] =
          .ok (entry, edited) ∧
        ¬ IsProperName entry.name ∧ ¬ IsAdmittedName entry.name := by
  obtain ⟨create, add, rename, proper⟩ := names_accepted ['A', '\n']
  have admitted : IsAdmittedName ['A', '\n'] := isIdentifier_iff.mp rfl
  have improper : ¬ IsProperName ['A', '\n'] := by
    rw [proper]
    exact fun both => both.2 (by decide)
  refine ⟨improper, (create _).mpr ⟨admitted, by decide⟩,
    (rename _ 0).mpr ⟨0, _, rfl, rfl, .inr ⟨admitted, by decide⟩⟩, _, _, rfl, ?_, ?_⟩
  · rw [((add ⟨['E'], [⟨['A', '\n'], [], []⟩]⟩ [] []).2 _ _ rfl).2.2]
    exact improper
  · rw [← isIdentifier_iff]
    decide

end EnumBlocks
