import EnumBlocks.CommandLine.Options
import EnumBlocks.Proofs.Declaration

/-!
The command line that adds entries at the end of a block. It is read as what it says, or it is
wrong; only in the place of the file can a word be an option that asks for something else, and then
there is no file left.
-/

namespace EnumBlocks

namespace CommandLine

def entryWords (specs : List Text) : List Text :=
  specs.flatMap fun spec => [['-', 'e'], spec]

def appendWords (file name : Text) (specs : List Text) : List Text :=
  file :: Flag.append.longSpelling :: name :: entryWords specs

def appendOptions (file name : Text) (specs : List Text) : Options where
  file := file
  action := .change (.append name)
  entries := specs.map some

/-- Whether a word stands for itself, even before a separator. -/
def IsOperand (word : Text) : Prop :=
  word ≠ ['-', '-'] ∧ readWord word = .ok (.operand word)

instance (word : Text) : Decidable (IsOperand word) :=
  inferInstanceAs (Decidable (_ ∧ _))

theorem isOperand_of_isName {name : Text} (named : IsName name) : IsOperand name := by
  obtain ⟨c, rest, rfl, word⟩ := named.exists_cons
  have other : c ≠ '-' := by
    rintro rfl
    exact absurd word (by decide)
  refine ⟨by simp [other], ?_⟩
  rw [readWord, if_pos (.inl (by simpa using other))]

section Words

variable {word : Text}

theorem readWord_cases {argument : Argument} (read : readWord word = .ok argument) :
    argument = .operand word ∨ (∃ text, argument = .unknown text) ∨
      ∃ flag attachment, argument = .option flag attachment := by
  unfold readWord at read
  split at read
  · exact .inl (Except.ok.inj read).symm
  · split at read
    · exact .inr (.inr ⟨_, _, (Except.ok.inj read).symm⟩)
    · split at read
      · rename_i own found
        unfold beforeEquals? at found
        split at found
        · obtain ⟨flag, -, rfl⟩ := Option.map_eq_some_iff.mp found
          exact .inr (.inr ⟨_, _, (Except.ok.inj read).symm⟩)
        · contradiction
      · unfold readAbbreviated at read
        split at read
        · exact .inr (.inr ⟨_, _, (Except.ok.inj read).symm⟩)
        · split at read
          · exact .inl (Except.ok.inj read).symm
          · exact .inr (.inl ⟨_, (Except.ok.inj read).symm⟩)
        · contradiction

theorem readWords_cons {rest : List Text} {arguments : List Argument}
    (noSeparator : word ≠ ['-', '-']) (read : readWords (word :: rest) = .ok arguments) :
    ∃ argument others, readWord word = .ok argument ∧ readWords rest = .ok others ∧
      arguments = argument :: others := by
  rw [readWords, if_neg noSeparator] at read
  split at read
  · contradiction
  · rename_i argument own
    cases others : readWords rest with
    | error wrong =>
        rw [others] at read
        contradiction
    | ok more =>
        rw [others] at read
        exact ⟨argument, more, own, rfl, (Except.ok.inj read).symm⟩

end Words

section Entries

theorem read_entryWords {specs : List Text} {arguments : List Argument}
    (split : readWords (entryWords specs) = .ok arguments) (draft : Draft) :
    draft.read arguments = .ok { draft with entries := draft.entries ++ specs.map some } ∨
      ∃ error, draft.read arguments = .error (.wrong error) := by
  induction specs generalizing draft arguments with
  | nil =>
      cases split
      left
      rw [Draft.read, List.map_nil, List.append_nil]
  | cons spec rest inductionHypothesis =>
      have words : entryWords (spec :: rest) = ['-', 'e'] :: spec :: entryWords rest := rfl
      have flag : readWord ['-', 'e'] = .ok (.option .entry .nothing) := by decide
      rw [words] at split
      obtain ⟨first, following, firstRead, followingRead, rfl⟩ := readWords_cons (by decide) split
      obtain rfl := Except.ok.inj (firstRead.symm.trans flag)
      by_cases separator : spec = ['-', '-']
      · rw [separator, readWords, if_pos rfl] at followingRead
        obtain rfl := Except.ok.inj followingRead
        exact .inr ⟨_, rfl⟩
      · obtain ⟨value, others, valueRead, othersRead, rfl⟩ := readWords_cons separator followingRead
        rcases readWord_cases valueRead with rfl | ⟨text, rfl⟩ | ⟨other, attachment, rfl⟩
        · have given := inductionHypothesis othersRead
            { draft with entries := draft.entries ++ [some spec] }
          rw [List.map_cons, List.append_cons]
          exact given
        · exact .inr ⟨_, rfl⟩
        · exact .inr ⟨_, rfl⟩

theorem choose_cases (draft : Draft) (flag : Flag) (value : Option Text) :
    draft.choose flag value = .ok { draft with chosen := some (flag, value) } ∨
      ∃ error, draft.choose flag value = .error (.wrong error) := by
  unfold Draft.choose
  split
  · exact .inl rfl
  · split
    · exact .inl rfl
    · exact .inr ⟨_, rfl⟩

variable {name : Text} (named : IsName name) {specs : List Text}

include named in
theorem read_appendWords {arguments : List Argument}
    (split : readWords (Flag.append.longSpelling :: name :: entryWords specs) = .ok arguments)
    (draft : Draft) :
    (∃ more, arguments = .option .append .nothing :: more) ∧
      (draft.read arguments =
          .ok { draft with
            chosen := some (.append, some name), entries := draft.entries ++ specs.map some } ∨
        ∃ error, draft.read arguments = .error (.wrong error)) := by
  have flag : readWord Flag.append.longSpelling = .ok (.option .append .nothing) := by decide
  obtain ⟨first, following, firstRead, followingRead, rfl⟩ := readWords_cons (by decide) split
  obtain rfl := Except.ok.inj (firstRead.symm.trans flag)
  obtain ⟨separate, operand⟩ := isOperand_of_isName named
  obtain ⟨value, others, valueRead, othersRead, rfl⟩ := readWords_cons separate followingRead
  obtain rfl := Except.ok.inj (valueRead.symm.trans operand)
  refine ⟨⟨_, rfl⟩, ?_⟩
  rcases choose_cases draft .append (some name) with chosen | ⟨error, refused⟩
  · have step : draft.read (.option .append .nothing :: .operand name :: others) =
        Draft.read { draft with chosen := some (.append, some name) } others := by
      simp only [Draft.read, expand, expandBare, Flag.takesValue, Flag.placeholder?,
        Option.isSome_some, if_true, List.nil_append, Draft.giveAll, Draft.give, chosen]
    rw [step]
    exact read_entryWords othersRead { draft with chosen := some (.append, some name) }
  · refine .inr ⟨error, ?_⟩
    simp only [Draft.read, expand, expandBare, Flag.takesValue, Flag.placeholder?,
      Option.isSome_some, if_true, List.nil_append, Draft.giveAll, Draft.give, refused]

theorem file_give {draft next : Draft} {flag : Flag} {value : Option Text}
    (done : draft.give flag value = .ok next) : next.file = draft.file := by
  have chosen {own : Flag} (choosing : draft.choose own value = .ok next) :
      next.file = draft.file := by
    rcases choose_cases draft own value with same | ⟨error, refused⟩
    · obtain rfl := Except.ok.inj (same.symm.trans choosing)
      rfl
    · rw [refused] at choosing
      contradiction
  cases flag with
  | help => contradiction
  | list | showBlock | create | delete | set | append => exact chosen done
  | indent =>
      simp only [Draft.give] at done
      split at done
      · cases done
        rfl
      · split at done
        · cases done
          rfl
        · contradiction
  | entry | dryRun | legacyBraces | onlyChanged | logFile | verbose =>
      cases done
      rfl

theorem file_giveAll {draft next : Draft} {given : List (Flag × Option Text)}
    (done : draft.giveAll given = .ok next) : next.file = draft.file := by
  induction given generalizing draft with
  | nil =>
      cases done
      rfl
  | cons own rest inductionHypothesis =>
      rw [Draft.giveAll] at done
      split at done
      · contradiction
      · rename_i first given
        exact (inductionHypothesis done).trans (file_give given)

theorem read_option_cases (flag : Flag) (attachment : Attachment) {other : Flag}
    {otherAttachment : Attachment} {following more : List Argument}
    (shape : following = .option other otherAttachment :: more) (draft : Draft) :
    (∃ stop, draft.read (.option flag attachment :: following) = .error stop) ∨
      ∃ next : Draft, next.file = draft.file ∧
        draft.read (.option flag attachment :: following) = next.read following := by
  subst shape
  rw [Draft.read]
  cases expand flag attachment with
  | error wrong => exact .inl ⟨_, rfl⟩
  | ok expansion =>
      rcases expansion with ⟨given, awaited⟩
      cases awaited with
      | some last => exact .inl ⟨_, rfl⟩
      | none =>
          simp only
          cases taken : draft.giveAll given with
          | error stop => exact .inl ⟨stop, rfl⟩
          | ok next => exact .inr ⟨next, file_giveAll taken, rfl⟩

variable {file : Text}

include named in
/-- The words ask for what they say, or they are wrong. -/
theorem ofWords_appendWords (operand : IsOperand file) :
    Options.ofWords (appendWords file name specs) = .ok (appendOptions file name specs) ∨
      ∃ error, Options.ofWords (appendWords file name specs) = .error (.wrong error) := by
  unfold Options.ofWords
  cases split : readWords (appendWords file name specs) with
  | error wrong => exact .inr ⟨wrong, rfl⟩
  | ok arguments =>
      obtain ⟨first, others, firstRead, othersRead, rfl⟩ := readWords_cons operand.1 split
      obtain rfl := Except.ok.inj (firstRead.symm.trans operand.2)
      obtain ⟨⟨more, rfl⟩, behind⟩ := read_appendWords named othersRead { file := some file }
      have step : Draft.read {} (.operand file :: .option .append .nothing :: more) =
          Draft.read { file := some file } (.option .append .nothing :: more) := rfl
      simp only [step]
      rcases behind with read | ⟨error, refused⟩
      · have chosen : Action.ofFlag .append name = .change (.append name) := if_neg named.1
        rw [read]
        left
        simp only [Draft.finish, if_true, Option.getD_some, chosen, List.nil_append]
        rfl
      · rw [refused]
        exact .inr ⟨error, rfl⟩

theorem finish_ne_ok {draft : Draft} (incomplete : draft.file = none ∨ draft.extra ≠ [])
    (options : Options) : draft.finish ≠ .ok options := by
  unfold Draft.finish
  split
  · exact fun same => by contradiction
  · rename_i own found
    rw [found] at incomplete
    rw [if_neg (incomplete.resolve_left (Option.some_ne_none own))]
    exact fun same => by contradiction

include named in
theorem ofWords_appendWords_ne_ok (noOperand : ¬ IsOperand file) (options : Options) :
    Options.ofWords (appendWords file name specs) ≠ .ok options := by
  unfold Options.ofWords
  by_cases separator : file = ['-', '-']
  · -- The option behind the separator is taken for the file, and all that follows is too much.
    have split : readWords (appendWords file name specs) = .ok (.separator ::
        (Flag.append.longSpelling :: name :: entryWords specs).map .operand) := by
      rw [separator, appendWords, readWords, if_pos rfl]
    rw [split]
    exact finish_ne_ok (.inr (List.cons_ne_nil name _)) options
  · cases split : readWords (appendWords file name specs) with
    | error wrong => exact fun same => by contradiction
    | ok arguments =>
        obtain ⟨first, others, firstRead, othersRead, rfl⟩ := readWords_cons separator split
        obtain ⟨⟨more, shape⟩, -⟩ := read_appendWords named othersRead {}
        have behind := fun draft : Draft => (read_appendWords named othersRead draft).2
        simp only
        rcases readWord_cases firstRead with rfl | ⟨text, rfl⟩ | ⟨flag, attachment, rfl⟩
        · exact absurd ⟨separator, firstRead⟩ noOperand
        · have step : Draft.read {} (.unknown text :: others) =
              Draft.read { extra := [text] } others := rfl
          rw [step]
          rcases behind { extra := [text] } with read | ⟨error, refused⟩
          · rw [read]
            exact finish_ne_ok (.inr (List.cons_ne_nil text [])) options
          · rw [refused]
            exact fun same => by contradiction
        · rcases read_option_cases flag attachment shape {} with
            ⟨stop, stopped⟩ | ⟨next, sameFile, continued⟩
          · rw [stopped]
            exact fun same => by contradiction
          · rw [continued]
            rcases behind next with read | ⟨error, refused⟩
            · rw [read]
              refine finish_ne_ok (.inl ?_) options
              exact sameFile
            · rw [refused]
              exact fun same => by contradiction

end Entries

end CommandLine

end EnumBlocks
