import EnumBlocks.Proofs.FailedRun

/-!
What a change that succeeds leaves in its file. Whatever the machine allows, success means that the
file was read, and that its new contents, where there are any, were written as a whole.
-/

namespace EnumBlocks

/-- Whether a path leads to a file of some content, which is not the log file. -/
structure World.HasFile (world : World) (path : Path) (location : Location) (content : Bytes) :
    Prop where
  resolves : world.tree.resolve path = .ok location
  held : world.tree.content? location = some content
  unlogged : world.logFile ≠ some location

namespace World.HasFile

variable {world : World} {path : Path} {location : Location} {content : Bytes}
  (hasFile : world.HasFile path location content)

include hasFile in
theorem alike {other : World} (alike : world.AlikeOffLog other) :
    other.HasFile path location content := by
  refine ⟨(alike.resolve path).trans hasFile.resolves, ?_, alike.logFile ▸ hasFile.unlogged⟩
  rw [FileTree.content?, alike.node location hasFile.unlogged]
  exact hasFile.held

include hasFile in
theorem ofBytes_eq_ok {file : TextFile} (read : world.textFile path = .ok file) :
    TextFile.ofBytes content = .ok file := by
  obtain ⟨access, found⟩ := FileTree.content?_eq_some_iff.mp hasFile.held
  rcases node?_of_textFile hasFile.resolves read with sink | ⟨_, _, again, -, text⟩
  · rw [found] at sink
    cases sink
  · rw [found] at again
    cases again
    exact text

include hasFile in
theorem write {written : Bytes} {after : World}
    (done : world.write path written = (.ok (), after)) : after.HasFile path location written := by
  obtain ⟨access, found⟩ := FileTree.content?_eq_some_iff.mp hasFile.held
  obtain rfl := write_eq_ok hasFile.resolves found done
  refine ⟨(FileTree.resolve_update _ path).trans hasFile.resolves, ?_, hasFile.unlogged⟩
  exact FileTree.content?_eq_some_iff.mpr
    ⟨access, FileTree.node?_update found fun _ => written⟩

end World.HasFile

namespace Document

variable {document : Document} {world after : World} {location : Location} {content : Bytes}

theorem store_succeeded (hasFile : world.HasFile document.path location content) {file : TextFile}
    (stored : (document.store file (document.commitTo file.lines) : StateM World _) world =
      (.ok (), after)) :
    after.HasFile document.path location (document.savedBytes file content) := by
  rw [store_apply] at stored
  rw [savedBytes]
  split at stored
  · rename_i changed
    rw [if_pos changed]
    cases writing : world.write document.path
        { file with lines := (document.commitTo file.lines).lines }.toBytes with
    | mk result written =>
        rw [writing] at stored
        cases result with
        | error cause => cases stored
        | ok =>
            cases stored
            exact (hasFile.write writing).alike (.report written _)
  · rename_i unchanged
    rw [if_neg unchanged]
    cases stored
    exact hasFile.alike (.report world _)

/-- A save that succeeds leaves what it was to leave, whatever it met on its way. -/
theorem save_succeeded (hasFile : world.HasFile document.path location content)
    {committed : Commit} {reloaded : Document}
    (saved : (document.save : StateM World _) world = (.ok (committed, reloaded), after)) :
    ∃ file, TextFile.ofBytes content = .ok file ∧ committed = document.commitTo file.lines ∧
      after.HasFile document.path location (document.savedBytes file content) := by
  rw [save_apply, prepare_apply] at saved
  cases read : world.textFile document.path with
  | error cause =>
      rw [read] at saved
      cases saved
  | ok file =>
      have noted := hasFile.alike (.reportAll world (document.commitTo file.lines).notices)
      rw [read] at saved
      simp only at saved
      cases storing : (document.store file (document.commitTo file.lines) : StateM World _)
          (world.reportAll (document.commitTo file.lines).notices) with
      | mk result stored =>
          rw [storing] at saved
          cases result with
          | error cause => cases saved
          | ok =>
              have kept := store_succeeded noted storing
              have reloading := kept.alike (alikeOffLog_load document stored)
              simp only at saved
              cases loading : (document.load : StateM World _) stored with
              | mk result loaded =>
                  rw [loading] at saved reloading
                  cases result with
                  | error cause => cases saved
                  | ok parts =>
                      cases saved
                      exact ⟨file, hasFile.ofBytes_eq_ok read, rfl, reloading⟩

end Document

theorem World.Listens.hasFile {world listening : World} {log : Option Path}
    (listens : world.Listens log listening) {path : Path} {location : Location} {content : Bytes}
    (resolves : world.tree.resolve path = .ok location)
    (held : world.tree.content? location = some content) (elsewhere : ¬ world.LogsTo log location) :
    listening.HasFile path location content := by
  obtain ⟨access, found⟩ := FileTree.content?_eq_some_iff.mp held
  exact ⟨(listens.resolve path location).mpr resolves,
    FileTree.content?_eq_some_iff.mpr ⟨access, listens.kept location _ found⟩,
    listens.unlogged elsewhere⟩

namespace CommandLine

def Outcome.status? : Outcome → Option Nat
  | .exited status _ _ => some status
  | _ => none

theorem Outcome.status?_eq_some_iff {outcome : Outcome} {status : Nat} :
    outcome.status? = some status ↔
      ∃ output complaint, outcome = .exited status output complaint := by
  cases outcome <;> simp [status?]

variable {options : Options} {change : Change} {world after : World} {location : Location}
  {content : Bytes} {output : List String} {complaint : Option String}
  (wet : options.dryRun = false)

include wet in
theorem changeAndSave_succeeded {document : Document} {width : Nat}
    (hasFile : world.HasFile document.path location content)
    (ran : (changeAndSave document change options width : StateM World _) world =
      (.exited 0 output complaint, after)) :
    ∃ file changed, TextFile.ofBytes content = .ok file ∧
      change.carryOut document options.entries = .ok changed ∧
      after.HasFile document.path location
        (Document.savedBytes { changed with settings := options.settings width } file content) := by
  rw [changeAndSave_apply] at ran
  cases carriedOut : change.carryOut document options.entries with
  | error cause =>
      rw [carriedOut] at ran
      cases cause <;> cases ran
  | ok changed =>
      have same := path_carryOut carriedOut
      rw [carriedOut, wet] at ran
      have hasFileChanged : world.HasFile
          { changed with settings := options.settings width }.path location content := by
        rw [same]
        exact hasFile
      cases saving : (Document.save { changed with settings := options.settings width } :
          StateM World _) world with
      | mk result saved =>
          have wetSave : (saveOrPreview { changed with settings := options.settings width } false :
              StateM World _) world = (result.map Prod.fst, saved) := by
            rw [saveOrPreview, if_neg (by decide), bind_apply, saving]
            rfl
          simp only [wetSave] at ran
          cases result with
          | error cause => cases ran
          | ok parts =>
              obtain ⟨file, text, -, kept⟩ := Document.save_succeeded hasFileChanged saving
              obtain rfl := (Prod.mk.inj ran).2
              exact ⟨file, changed, text, rfl, same ▸ kept⟩

variable (asked : options.action = .change change)

include wet asked in
theorem loadAndAct_succeeded {path : Path} {width : Nat}
    (hasFile : world.HasFile path location content)
    (ran : (loadAndAct path options width : StateM World _) world =
      (.exited 0 output complaint, after)) :
    ∃ file changed, TextFile.ofBytes content = .ok file ∧
      change.carryOut (Document.withLines { path := path } file.lines) options.entries =
        .ok changed ∧
      after.HasFile path location
        (Document.savedBytes { changed with settings := options.settings width } file content) := by
  rw [loadAndAct_apply] at ran
  cases read : world.textFile path with
  | error cause =>
      rw [read] at ran
      cases ran
  | ok file =>
      rw [read] at ran
      simp only [act, asked] at ran
      have loaded := hasFile.alike
        (.reportAll world (Document.loadNotices { path := path } file.lines))
      obtain ⟨own, changed, text, carriedOut, kept⟩ := changeAndSave_succeeded wet loaded ran
      -- The file is read twice, for the document and for the save, and is the same.
      obtain rfl := Except.ok.inj (text.symm.trans (hasFile.ofBytes_eq_ok read))
      exact ⟨own, changed, text, carriedOut, kept⟩

include wet asked in
/-- A command line that asks for a change and succeeds has carried it out on what was in the file,
and saved it. -/
theorem run_change_succeeded {words : List Text} (concerns : Concerns words world location)
    (held : world.tree.content? location = some content)
    (parsed : Options.ofWords words = .ok options)
    (ran : (run words : StateM World _) world = (.exited 0 output complaint, after)) :
    ∃ width file changed, options.indentWidth = .ok width ∧ TextFile.ofBytes content = .ok file ∧
      change.carryOut (Document.withLines { path := Path.ofText options.file } file.lines)
        options.entries = .ok changed ∧
      after.HasFile (Path.ofText options.file) location
        (Document.savedBytes { changed with settings := options.settings width } file content) := by
  obtain ⟨resolves, elsewhere⟩ := concerns options parsed
  rw [run_apply, parsed] at ran
  simp only at ran
  rw [runOptions_apply] at ran
  cases listened : world.listen options.level options.logPath? with
  | mk result listening =>
      rw [listened] at ran
      cases result with
      | error cause => cases ran
      | ok =>
          have hasFile := (World.listens_of_listen listened).hasFile resolves held elsewhere
          simp only at ran
          split at ran
          · cases ran
          · cases ran
          · split at ran
            · cases ran
            · rename_i width wide
              obtain ⟨file, changed, done⟩ := loadAndAct_succeeded wet asked hasFile ran
              exact ⟨width, file, changed, wide, done⟩

end CommandLine

end EnumBlocks
