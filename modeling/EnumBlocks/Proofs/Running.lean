import EnumBlocks.CommandLine.Run
import EnumBlocks.Proofs.StoredFile

/-!
Running a command line on a machine in memory, as a function of the machine: the log file is opened,
the file is read, and a change is saved or shown. What a run meets on its way is what was there when
it began, except in the log file.
-/

namespace EnumBlocks

namespace FileTree

variable {tree : FileTree} {place : Location} (absent : tree.node? place = none)

include absent in
/-- A new file ends no way through the directories and begins none. -/
theorem walk_put_of_absent {access : Access} {content : Bytes} {path : Path} {location : Location}
    {names : List Text} {here : Location} :
    (tree.put place (.file access content)).walk path here names = .ok location ↔
      tree.walk path here names = .ok location := by
  induction names generalizing here with
  | nil => rfl
  | cons name rest inductionHypothesis =>
      by_cases same : here = place
      · subst same
        simp [walk, node?_put, absent]
      · simp only [walk, node?_put, if_neg same]
        cases tree.node? here with
        | none => rfl
        | some node =>
            cases node with
            | file _ _ => rfl
            | sink => rfl
            | directory _ =>
                simp only
                split
                · rfl
                · split
                  · rfl
                  · split <;> exact inductionHypothesis

include absent in
theorem resolve_put_of_absent {access : Access} {content : Bytes} {path : Path}
    {location : Location} :
    (tree.put place (.file access content)).resolve path = .ok location ↔
      tree.resolve path = .ok location := by
  have origin : (tree.put place (.file access content)).origin path = tree.origin path := rfl
  unfold resolve
  rw [origin]
  split
  · rfl
  · split
    · rfl
    · exact walk_put_of_absent absent

theorem openFile_eq_ok {path : Path} {opened : FileTree}
    (opening : tree.openFile path = .ok (place, opened)) :
    tree.resolve path = .ok place ∧
      (opened = tree ∨
        tree.node? place = none ∧ opened = tree.put place (.file (.ofDigit 6) [])) := by
  unfold openFile at opening
  split at opening
  · contradiction
  · rename_i location resolves
    rw [resolves]
    split at opening
    · cases opening
      exact ⟨rfl, .inl rfl⟩
    · contradiction
    · split at opening
      · cases opening
        exact ⟨rfl, .inl rfl⟩
      · contradiction
    · rename_i missing
      split at opening
      · split at opening
        · cases opening
          exact ⟨rfl, .inr ⟨missing, rfl⟩⟩
        · contradiction
      · contradiction
      · contradiction
      · contradiction

end FileTree

def World.LogsTo (world : World) (log : Option Path) (location : Location) : Prop :=
  ∃ path ∈ log, world.tree.resolve (world.tree.absolute path) = .ok location

/-- What a machine is after it began to listen: paths lead where they led, what was there is there,
and the log file is the one that was asked for. -/
structure World.Listens (world : World) (log : Option Path) (listening : World) : Prop where
  limit : listening.limit = world.limit
  resolve : ∀ path location, listening.tree.resolve path = .ok location ↔
    world.tree.resolve path = .ok location
  kept : ∀ location node, world.tree.node? location = some node →
    listening.tree.node? location = some node
  logged : ∀ location, listening.logFile = some location → world.LogsTo log location

namespace World

variable {world listening : World} {log : Option Path}

theorem listens_of_listen {level : Level}
    (done : world.listen level log = (.ok (), listening)) : world.Listens log listening := by
  unfold listen at done
  split at done
  · cases done
    exact ⟨rfl, fun _ _ => Iff.rfl, fun _ _ found => found, fun _ logged => by contradiction⟩
  · rename_i path
    split at done
    · cases done
    · rename_i place opened opening
      cases done
      obtain ⟨resolves, made⟩ := FileTree.openFile_eq_ok opening
      refine ⟨rfl, ?_, ?_, ?_⟩
      · rcases made with rfl | ⟨absent, rfl⟩
        · exact fun _ _ => Iff.rfl
        · exact fun _ _ => FileTree.resolve_put_of_absent absent
      · intro location node found
        rcases made with rfl | ⟨absent, rfl⟩
        · exact found
        · have other : location ≠ place := fun same => by
            rw [same, absent] at found
            contradiction
          exact ((FileTree.node?_put _ _ _ _).trans (if_neg other)).trans found
      · intro location logged
        cases logged
        exact ⟨path, rfl, resolves⟩

/-- A log file that cannot be opened leaves the machine as it was. -/
theorem eq_of_listen_eq_error {level : Level} {cause : FileError}
    (refused : world.listen level log = (.error cause, listening)) : listening = world := by
  unfold listen at refused
  split at refused
  · cases refused
  · split at refused
    · cases refused
      rfl
    · cases refused

namespace Listens

variable (listens : world.Listens log listening) {location : Location}

include listens in
theorem unlogged (elsewhere : ¬ world.LogsTo log location) :
    listening.logFile ≠ some location :=
  fun logged => elsewhere (listens.logged location logged)

include listens in
theorem stores {path : Path} {access : Access} {content : Bytes}
    (resolves : world.tree.resolve path = .ok location)
    (found : world.tree.node? location = some (.file access content))
    (readable : access.read = true) (writable : access.write = true)
    (unlimited : world.limit = none) (elsewhere : ¬ world.LogsTo log location) :
    listening.Stores path location content :=
  ⟨(listens.resolve path location).mpr resolves,
    ⟨access, readable, writable, listens.kept location _ found⟩, listens.unlogged elsewhere,
    listens.limit.trans unlimited⟩

end Listens

end World

theorem isFile_of_stores {world : World} {path : Path} {location : Location} {content : Bytes}
    (stores : world.Stores path location content) : world.tree.isFile path = .ok true := by
  obtain ⟨access, -, -, found⟩ := stores.node
  rw [FileTree.isFile, stores.resolves]
  simp only [found]

namespace CommandLine

theorem eq_ok_of_mapError_eq_ok {ε ε' α : Type} {result : Except ε α} {convert : ε → ε'}
    {value : α} (done : result.mapError convert = .ok value) : result = .ok value := by
  cases result with
  | error cause => contradiction
  | ok own =>
      cases done
      rfl

section Change

variable {document changed : Document} {name : Text} {entries : List Entry}

theorem path_replaceEntries (done : document.replaceEntries name entries = .ok changed) :
    changed.path = document.path := by
  obtain ⟨_, -, rfl⟩ := Document.replaceEntries_eq_ok done
  rfl

theorem path_createWith (done : createWith document name entries = .ok changed) :
    changed.path = document.path := by
  unfold createWith at done
  split at done
  · contradiction
  · rename_i block created creating
    have same : created.path = document.path := by
      obtain ⟨-, -, -, rfl⟩ := Document.create_eq_ok creating
      rfl
    split at done
    · cases done
      exact same
    · exact (path_replaceEntries (eq_ok_of_mapError_eq_ok done)).trans same

theorem path_appendTo (done : appendTo document name entries = .ok changed) :
    changed.path = document.path := by
  unfold appendTo at done
  split at done
  · contradiction
  · split at done
    · contradiction
    · exact path_replaceEntries (eq_ok_of_mapError_eq_ok done)

theorem path_carryOut {change : Change} {specs : List (Option Text)}
    (done : change.carryOut document specs = .ok changed) : changed.path = document.path := by
  unfold Change.carryOut at done
  split at done
  · contradiction
  · cases change with
    | create name => exact path_createWith done
    | append name => exact path_appendTo done
    | delete name =>
        simp only [Change.applyTo] at done
        split at done
        · obtain ⟨-, rfl⟩ := Document.remove_eq_ok (eq_ok_of_mapError_eq_ok done)
          rfl
        · contradiction
    | set name =>
        simp only [Change.applyTo] at done
        split at done
        · exact path_replaceEntries (eq_ok_of_mapError_eq_ok done)
        · contradiction

end Change

variable (document : Document) (change : Change) (options : Options) (width : Nat) (world : World)

theorem changeAndSave_apply :
    (changeAndSave document change options width : StateM World _) world =
      match change.carryOut document options.entries with
      | .error cause => (cause.outcome, world)
      | .ok changed =>
          match (saveOrPreview { changed with settings := options.settings width } options.dryRun :
              StateM World _) world with
          | (.error cause, after) =>
              (.failure s!"cannot write {String.ofList document.path.toText}: {cause.message}",
                after)
          | (.ok committed, after) =>
              (.exited (if committed.success then 0 else 1)
                (saveReport committed document.path options.dryRun) none, after) := by
  unfold changeAndSave
  cases change.carryOut document options.entries with
  | error cause => rfl
  | ok changed =>
      simp only [bind_apply]
      cases (saveOrPreview { changed with settings := options.settings width } options.dryRun :
          StateM World _) world with
      | mk result after => cases result <;> rfl

theorem loadAndAct_apply (path : Path) :
    (loadAndAct path options width : StateM World _) world =
      match world.textFile path with
      | .error cause =>
          (.failure s!"cannot read {String.ofList path.toText}: {cause.message}", world)
      | .ok file =>
          (act (Document.withLines { path := path } file.lines) options width : StateM World _)
            (world.reportAll (Document.loadNotices { path := path } file.lines)) := by
  rw [loadAndAct, bind_apply, Document.load_apply]
  cases world.textFile path <;> rfl

theorem runOptions_apply :
    (runOptions options : StateM World _) world =
      match world.listen options.level options.logPath? with
      | (.error cause, after) => (.stoppedByFile cause, after)
      | (.ok (), listening) =>
          match listening.tree.isFile (Path.ofText options.file) with
          | .error cause => (.stoppedByFile cause, listening)
          | .ok false =>
              (.failure
                s!"file does not exist: {String.ofList (Path.ofText options.file).toText}",
                listening)
          | .ok true =>
              match options.indentWidth with
              | .error cause => (.stoppedByOption cause, listening)
              | .ok width =>
                  (loadAndAct (Path.ofText options.file) options width : StateM World _)
                    listening := by
  have start : (startLog options.level options.logPath? : StateM World _) world =
      world.listen options.level options.logPath? := rfl
  have look (path : Path) (listening : World) : (isFile path : StateM World _) listening =
      (listening.tree.isFile path, listening) := rfl
  rw [runOptions, bind_apply, start]
  cases world.listen options.level options.logPath? with
  | mk result listening =>
      cases result with
      | error cause => rfl
      | ok =>
          simp only [bind_apply, look]
          cases listening.tree.isFile (Path.ofText options.file) with
          | error cause => rfl
          | ok there =>
              cases there with
              | false => rfl
              | true =>
                  simp only
                  cases options.indentWidth <;> rfl

theorem run_apply (words : List Text) :
    (run words : StateM World _) world =
      match Options.ofWords words with
      | .error stop => (stop.outcome, world)
      | .ok options => (runOptions options : StateM World _) world := by
  unfold run
  cases Options.ofWords words <;> rfl

section Stored

variable {change options world} {path : Path} {location : Location} {content : Bytes}
  {file : TextFile}

theorem changeAndSave_stored (stores : world.Stores document.path location content)
    (read : TextFile.ofBytes content = .ok file) {changed : Document}
    (carriedOut : change.carryOut document options.entries = .ok changed)
    (wet : options.dryRun = false) :
    ∃ after, (changeAndSave document change options width : StateM World _) world =
        (.exited
          (if (Document.commitTo { changed with settings := options.settings width }
            file.lines).success then 0 else 1)
          (saveReport (Document.commitTo { changed with settings := options.settings width }
            file.lines) document.path false) none, after) ∧
      after.Stores document.path location
        (Document.savedBytes { changed with settings := options.settings width } file content) := by
  have same := path_carryOut carriedOut
  have storesChanged : world.Stores
      { changed with settings := options.settings width }.path location content := by
    rw [same]
    exact stores
  obtain ⟨reloaded, after, -, saved, storesAfter⟩ := Document.save_stored storesChanged read
  refine ⟨after, ?_, same ▸ storesAfter⟩
  have wetSave : (saveOrPreview { changed with settings := options.settings width } false :
      StateM World _) world =
      (.ok (Document.commitTo { changed with settings := options.settings width } file.lines),
        after) := by
    unfold saveOrPreview
    rw [if_neg (by decide), bind_apply, saved]
    rfl
  rw [changeAndSave_apply, carriedOut, wet]
  simp only [wetSave]

end Stored

end CommandLine

end EnumBlocks
