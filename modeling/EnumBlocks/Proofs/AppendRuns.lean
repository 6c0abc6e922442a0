import EnumBlocks.Proofs.AppendWords
import EnumBlocks.Proofs.GivenEntries
import EnumBlocks.Proofs.SavedFile
import EnumBlocks.Proofs.SuccessfulRun

/-!
Adding entries to a block in two runs. The first run saves the file and the second one reads it
again, with everything in it; what the second leaves is what a single run with all the entries
leaves.
-/

namespace EnumBlocks

section Faithful

variable {lines : List Text} {block : Block} (present : block ∈ (Outline.ofLines lines).blocks)

include present in
/-- A block of a document is read back as it is wherever it is written, if nothing in its entries
can be taken for something else. -/
theorem faithful_of_mem_ofLines (oneLine : ∀ line ∈ lines, IsOneLine line)
    (unmistakable : ∀ entry ∈ block.entries, entry.Unmistakable) : block.Faithful where
  named := isName_of_mem_declaredNames (mem_names_ofLines.mp (List.mem_map_of_mem present))
  clean := by
    intro entry membership
    obtain ⟨line, lineMembership, readFrom⟩ := isReadFrom_of_mem_ofLines present entry membership
    exact readFrom.clean (oneLine line lineMembership) (unmistakable entry membership)
  read := isRead_of_mem_ofLines present

theorem Block.Faithful.append (faithful : block.Faithful) {specs : List Text} {given : List Entry}
    (read : specs.mapM CommandLine.readSpec? = some given)
    (oneLine : ∀ spec ∈ specs, IsOneLine spec)
    (unmistakable : ∀ spec ∈ specs, ∀ entry, Entry.parse? spec = some entry →
      entry.Unmistakable) : (block.append given).Faithful := by
  have readFrom : ∀ entry ∈ given, ∃ spec ∈ specs, Entry.parse? spec = some entry :=
    CommandLine.exists_parse?_of_mem_given read
  refine ⟨faithful.named, List.forall_mem_append.mpr ⟨faithful.clean, ?_⟩,
    List.forall_mem_append.mpr ⟨faithful.read, ?_⟩⟩
  · intro entry membership
    obtain ⟨spec, present, parsed⟩ := readFrom entry membership
    have own : entry.IsReadFrom spec := ⟨spec, List.Subset.refl spec, parsed⟩
    exact own.clean (oneLine spec present) (unmistakable spec present entry parsed)
  · intro entry membership
    obtain ⟨spec, -, parsed⟩ := readFrom entry membership
    exact parse?_eq_some parsed

theorem Block.append_append (block : Block) (given further : List Entry) :
    (block.append given).append further = block.append (given ++ further) := by
  simp [Block.append, List.append_assoc]

end Faithful

namespace CommandLine

variable {file name : Text} (named : IsName name) {specs : List Text} {world after : World}
  {location : Location} {content : Bytes} {output : List String} {complaint : Option String}
  (ran : (run (appendWords file name specs) : StateM World _) world =
    (.exited 0 output complaint, after))

include named ran in
theorem eq_of_run_append (noOperand : ¬ IsOperand file) : after = world := by
  rw [run_apply] at ran
  cases parsed : Options.ofWords (appendWords file name specs) with
  | error stop =>
      rw [parsed] at ran
      exact (Prod.mk.inj ran).2.symm
  | ok options => exact absurd parsed (ofWords_appendWords_ne_ok named noOperand options)

include named ran in
theorem ofWords_of_run_append (operand : IsOperand file) :
    Options.ofWords (appendWords file name specs) = .ok (appendOptions file name specs) := by
  rcases ofWords_appendWords named operand with parsed | ⟨error, wrong⟩
  · exact parsed
  · rw [run_apply, wrong] at ran
    cases ran

include named ran in
/-- A run that adds entries to a block and succeeds has saved the block with these entries. -/
theorem run_append_succeeded (operand : IsOperand file)
    (resolves : world.tree.resolve (Path.ofText file) = .ok location)
    (held : world.tree.content? location = some content) {source : TextFile}
    (read : TextFile.ofBytes content = .ok source) :
    ∃ block given, (Outline.ofLines source.lines).find? name = some block ∧
      specs.mapM readSpec? = some given ∧
      after.tree.resolve (Path.ofText file) = .ok location ∧
      after.tree.content? location =
        some ((Document.overwriting { path := Path.ofText file } source.lines
          (block.append given)).savedBytes source content) := by
  have parsed := ofWords_of_run_append named ran operand
  have concerns : Concerns (appendWords file name specs) world location := by
    intro options again
    obtain rfl := Except.ok.inj (parsed.symm.trans again)
    exact ⟨resolves, fun ⟨path, logged, _⟩ => by cases logged⟩
  obtain ⟨width, own, changed, wide, text, carriedOut, kept⟩ :=
    run_change_succeeded rfl rfl concerns held parsed ran
  obtain rfl := Except.ok.inj (text.symm.trans read)
  have four : (appendOptions file name specs).indentWidth = .ok 4 := rfl
  obtain rfl := Except.ok.inj (wide.symm.trans four)
  obtain ⟨block, given, found, all, rfl⟩ := carryOut_append_eq_ok carriedOut
  exact ⟨block, given, found, all, kept.resolves, kept.held⟩

/-- Adding entries to a block of a file and then, in another run, further ones leaves the bytes that
adding all of them in one run leaves in a copy of the file, if all three runs succeed. The file is
well-formed, and nothing in the entries that are there or given can be taken for something else. The
copy may be anywhere and have any name, as long as its name is an operand where that of the file is.
-/
theorem run_append_twice {file copied name : Text} (given further : List Text)
    {world between after copy copyAfter : World} {location copyLocation : Location}
    {content : Bytes} {source : TextFile} {first second only : Outcome}
    (resolves : world.tree.resolve (Path.ofText file) = .ok location)
    (held : world.tree.content? location = some content)
    (copyResolves : copy.tree.resolve (Path.ofText copied) = .ok copyLocation)
    (copyHeld : copy.tree.content? copyLocation = some content)
    (alike : IsOperand copied ↔ IsOperand file)
    (read : TextFile.ofBytes content = .ok source) (wellFormed : WellFormed source.lines)
    (present : name ∈ (Outline.ofLines source.lines).names)
    (scanned : ∀ block ∈ (Outline.ofLines source.lines).blocks, ∀ entry ∈ block.entries,
      entry.Unmistakable)
    (oneLine : ∀ spec ∈ given ++ further, IsOneLine spec)
    (parsed : ∀ spec ∈ given ++ further, ∀ entry, Entry.parse? spec = some entry →
      entry.Unmistakable)
    (firstRan : (run (appendWords file name given) : StateM World _) world = (first, between))
    (secondRan : (run (appendWords file name further) : StateM World _) between = (second, after))
    (onlyRan : (run (appendWords copied name (given ++ further)) : StateM World _) copy =
      (only, copyAfter))
    (firstDone : first.status? = some 0) (secondDone : second.status? = some 0)
    (onlyDone : only.status? = some 0) :
    ∃ bytes, after.tree.content? location = some bytes ∧
      copyAfter.tree.content? copyLocation = some bytes := by
  have named := isName_of_mem_declaredNames (mem_names_ofLines.mp present)
  obtain ⟨_, _, rfl⟩ := Outcome.status?_eq_some_iff.mp firstDone
  obtain ⟨_, _, rfl⟩ := Outcome.status?_eq_some_iff.mp secondDone
  obtain ⟨_, _, rfl⟩ := Outcome.status?_eq_some_iff.mp onlyDone
  by_cases operand : IsOperand file
  · obtain ⟨block, first, found, firstRead, resolvesBetween, heldBetween⟩ :=
      run_append_succeeded named firstRan operand resolves held read
    obtain ⟨membership, rfl⟩ := Outline.find?_eq_some_iff.mp found
    obtain ⟨onlyBlock, all, onlyFound, allRead, -, heldCopy⟩ :=
      run_append_succeeded named onlyRan (alike.mpr operand) copyResolves copyHeld read
    obtain rfl := Option.some.inj (onlyFound.symm.trans found)
    let document : Document := { path := Path.ofText file }
    have readable : document.settings.Readable := Settings.readable_default
    have unit : IsOneLine document.settings.indentUnit :=
      show IsOneLine (List.replicate 4 ' ') by decide
    have faithful : ∀ own ∈ (Outline.ofLines source.lines).blocks, own.Faithful :=
      fun own ownMembership =>
        faithful_of_mem_ofLines ownMembership wellFormed.oneLine (scanned own ownMembership)
    have whole : (onlyBlock.append all).Faithful :=
      (faithful onlyBlock membership).append allRead oneLine parsed
    rw [List.forall_mem_append] at oneLine parsed
    have once : (onlyBlock.append first).Faithful :=
      (faithful onlyBlock membership).append firstRead oneLine.1 parsed.1
    have known : (onlyBlock.append first).name ∈ (Outline.ofLines source.lines).names := present
    -- The second run reads what the first has saved, and finds the block with the first entries.
    have readBetween : TextFile.ofBytes _ =
        .ok (document.overwritten source (onlyBlock.append first)) :=
      Document.ofBytes_savedBytes_overwriting rfl readable rfl unit read wellFormed faithful known
        once
    obtain ⟨block, second, foundAgain, secondRead, -, heldAfter⟩ :=
      run_append_succeeded named secondRan operand resolvesBetween heldBetween readBetween
    have block_eq : block = onlyBlock.append first := by
      rw [Document.ofLines_overwritten rfl readable rfl wellFormed faithful known once,
        Outline.find?_put] at foundAgain
      exact (Option.some.inj ((if_pos rfl).symm.trans foundAgain)).symm
    have all_eq : all = first ++ second := by
      rw [List.mapM_append, firstRead, secondRead] at allRead
      exact (Option.some.inj allRead).symm
    subst block_eq all_eq
    rw [Block.append_append, Document.savedBytes_overwriting_append rfl readable rfl wellFormed
      faithful membership once whole] at heldAfter
    exact ⟨_, heldAfter, heldCopy⟩
  · -- The word in the place of the file is an option, which the runs come to nothing for.
    obtain rfl := eq_of_run_append named firstRan operand
    obtain rfl := eq_of_run_append named secondRan operand
    obtain rfl := eq_of_run_append named onlyRan (alike.not.mpr operand)
    exact ⟨content, held, copyHeld⟩

def afterAppend (specs : List Text) (world : World) : World :=
  ((run (appendWords ['T'] ['A'] specs) : StateM World _) world).2

theorem run_append_twice_oneBlock :
    let machine := machineWith (Utf8.encode (Text.joinWith ['\n'] oneBlock))
    ∃ bytes,
      (afterAppend [['Z', '=', '1'], ['W']] (afterAppend [['Y']] machine)).tree.content? [['T']] =
          some bytes ∧
        (afterAppend [['Y'], ['Z', '=', '1'], ['W']] machine).tree.content? [['T']] =
          some bytes := by
  intro machine
  have read : TextFile.ofBytes (Utf8.encode (Text.joinWith ['\n'] oneBlock)) =
      .ok (.ofText (Text.joinWith ['\n'] oneBlock) false) := rfl
  have present : ['A'] ∈ (Outline.ofLines oneBlock).names := by decide
  have scanned : ∀ block ∈ (Outline.ofLines oneBlock).blocks, ∀ entry ∈ block.entries,
      entry.Unmistakable := by decide
  have oneLine : ∀ spec ∈ [['Y'], ['Z', '=', '1'], ['W']], IsOneLine spec := by decide
  have parsed : ∀ spec ∈ [['Y'], ['Z', '=', '1'], ['W']],
      ∀ entry ∈ Entry.parse? spec, entry.Unmistakable := by decide
  have ran (specs : List Text) (world : World) :
      (run (appendWords ['T'] ['A'] specs) : StateM World _) world =
        (((run (appendWords ['T'] ['A'] specs) : StateM World _) world).1,
          afterAppend specs world) := rfl
  exact run_append_twice [['Y']] [['Z', '=', '1'], ['W']] rfl rfl rfl rfl Iff.rfl read
    wellFormed_oneBlock present scanned oneLine parsed (ran _ _) (ran _ _) (ran _ _)
    (by decide +kernel) (by decide +kernel) (by decide +kernel)

end CommandLine

end EnumBlocks
