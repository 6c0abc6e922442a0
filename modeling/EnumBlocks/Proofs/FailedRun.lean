import EnumBlocks.Proofs.FailedSave
import EnumBlocks.Proofs.Running
import EnumBlocks.Proofs.Unlocated

/-!
What a command line that ends with a failure leaves in a file. The file is as it was, but for one way
to fail: a change was saved and some blocks of the file could not be located. Then these are reported
and left as they are, and the file holds what saving all others leaves.
-/

namespace EnumBlocks

section Elsewhere

variable {world : World} {path : Path} {place location : Location}
  (resolves : world.tree.resolve path = .ok place)

include resolves in
/-- Writing concerns the file that the path leads to, if that may be written, and no other. -/
theorem write_elsewhere {file : TextFile} (read : world.textFile path = .ok file)
    (spared : ∀ access old, world.tree.node? place = some (.file access old) →
      access.write = true → location ≠ place) (written : Bytes) :
    (world.write path written).2.logFile = world.logFile ∧
      (world.write path written).2.tree.node? location = world.tree.node? location := by
  rcases write_of_textFile resolves read written with
    ⟨result, same⟩ | ⟨access, old, found, -, writable, -⟩
  · rw [same]
    exact ⟨rfl, rfl⟩
  · rw [write_of_file resolves found writable]
    exact ⟨rfl, FileTree.node?_update_of_ne _ (spared access old found writable) _⟩

variable {document : Document}

theorem store_elsewhere (resolves : world.tree.resolve document.path = .ok place)
    {file : TextFile} (read : world.textFile document.path = .ok file)
    (unlogged : world.logFile ≠ some location)
    (spared : ∀ access old, world.tree.node? place = some (.file access old) →
      access.write = true → location ≠ place) (prepared : Commit) :
    ((document.store file prepared : StateM World _) world).2.logFile = world.logFile ∧
      ((document.store file prepared : StateM World _) world).2.tree.node? location =
        world.tree.node? location := by
  rw [Document.store_apply]
  split
  · have written := write_elsewhere resolves read spared
      { file with lines := prepared.lines }.toBytes
    cases writing : world.write document.path { file with lines := prepared.lines }.toBytes with
    | mk result stored =>
        rw [writing] at written
        cases result with
        | error cause => exact written
        | ok =>
            have reported := World.AlikeOffLog.report stored (.saved document.path.toText)
            exact ⟨reported.logFile.trans written.1,
              (reported.node location (written.1 ▸ unlogged)).trans written.2⟩
  · have reported := World.AlikeOffLog.report world .unchanged
    exact ⟨reported.logFile, reported.node location unlogged⟩

theorem alikeOffLog_load (document : Document) (world : World) :
    world.AlikeOffLog ((document.load : StateM World _) world).2 := by
  rw [Document.load_apply]
  cases world.textFile document.path with
  | error failure => exact .refl world
  | ok file => exact .reportAll world _

theorem save_elsewhere (resolves : world.tree.resolve document.path = .ok place)
    (apart : world.logFile ≠ some place) (unlogged : world.logFile ≠ some location)
    (spared : ∀ access old, world.tree.node? place = some (.file access old) →
      access.write = true → location ≠ place) :
    ((document.save : StateM World _) world).2.tree.node? location =
      world.tree.node? location := by
  rw [Document.save_apply, Document.prepare_apply]
  cases read : world.textFile document.path with
  | error cause => rfl
  | ok file =>
      have noted := World.AlikeOffLog.reportAll world (document.commitTo file.lines).notices
      have resolvesNoted := (noted.resolve document.path).trans resolves
      have readNoted := (noted.textFile_eq resolves apart).trans read
      have unloggedNoted := noted.logFile ▸ unlogged
      have sparedNoted := noted.node place apart ▸ spared
      have kept := store_elsewhere resolvesNoted readNoted unloggedNoted sparedNoted
        (document.commitTo file.lines)
      simp only
      cases storing : (document.store file (document.commitTo file.lines) : StateM World _)
          (world.reportAll (document.commitTo file.lines).notices) with
      | mk result stored =>
          rw [storing] at kept
          have keptStored := kept.2.trans (noted.node location unlogged)
          cases result with
          | error cause => exact keptStored
          | ok =>
              have reloaded := (alikeOffLog_load document stored).node location
                (kept.1.trans noted.logFile ▸ unlogged)
              simp only
              cases loading : (document.load : StateM World _) stored with
              | mk result after =>
                  rw [loading] at reloaded
                  cases result <;> exact reloaded.trans keptStored

end Elsewhere

def FileTree.content? (tree : FileTree) (location : Location) : Option Bytes :=
  match tree.node? location with
  | some (.file _ content) => some content
  | _ => none

theorem FileTree.content?_eq_some_iff {tree : FileTree} {location : Location} {content : Bytes} :
    tree.content? location = some content ↔
      ∃ access, tree.node? location = some (.file access content) := by
  unfold content?
  split
  · rename_i access own found
    simp [found]
  · rename_i noFile
    simpa using fun access => noFile access content

/-- The document without the blocks that cannot be located when it is written into lines. -/
def Document.locatable (document : Document) (lines : List Text) : Document :=
  { document with outline := document.outline.without (document.commitTo lines).failing }

/-- A document is saved as it would be without the blocks that cannot be located. -/
theorem Document.savedBytes_locatable (document : Document) (file : TextFile) (content : Bytes) :
    document.savedBytes file content =
        (document.locatable file.lines).savedBytes file content ∧
      ((document.locatable file.lines).commitTo file.lines).errors = [] := by
  obtain ⟨alike, complete⟩ := commit_without_failing (rfl : _ = document.commitTo file.lines)
  have same : ((document.locatable file.lines).commitTo file.lines).lines =
      (document.commitTo file.lines).lines := alike.lines
  refine ⟨?_, complete⟩
  rw [savedBytes_eq, savedBytes_eq, same]

namespace CommandLine

/-- Whether a command line gets as far as saving `document` in the file at a location: it asks for a
change that is not only to be shown, the file can be read and written, and neither the change nor an
option is refused. -/
structure Saves (words : List Text) (options : Options) (world : World) (location : Location)
    (content : Bytes) (file : TextFile) (document : Document) : Prop where
  parsed : Options.ofWords words = .ok options
  wet : options.dryRun = false
  logs : ∃ listening, world.listen options.level options.logPath? = (.ok (), listening)
  node : ∃ access, access.read = true ∧ access.write = true ∧
    world.tree.node? location = some (.file access content)
  text : TextFile.ofBytes content = .ok file
  changed : ∃ change width changed, options.action = .change change ∧
    options.indentWidth = .ok width ∧
    change.carryOut (Document.withLines { path := Path.ofText options.file } file.lines)
      options.entries = .ok changed ∧
    document = { changed with settings := options.settings width }

/-- Whether a location is that of the file that a command line is about, and not that of the log
file. -/
def Concerns (words : List Text) (world : World) (location : Location) : Prop :=
  ∀ options, Options.ofWords words = .ok options →
    world.tree.resolve (Path.ofText options.file) = .ok location ∧
      ¬ world.LogsTo options.logPath? location

variable {words : List Text} {options : Options} {world : World} {location : Location}
  {content : Bytes} {file : TextFile} {document : Document}

theorem run_of_saves (unlimited : world.limit = none) (concerns : Concerns words world location)
    (saves : Saves words options world location content file document) :
    ∃ after, (run words : StateM World _) world =
        (.exited (if (document.commitTo file.lines).success then 0 else 1)
          (saveReport (document.commitTo file.lines) (Path.ofText options.file) false) none,
          after) ∧
      after.Stores (Path.ofText options.file) location (document.savedBytes file content) := by
  obtain ⟨resolves, elsewhere⟩ := concerns options saves.parsed
  obtain ⟨listening, listened⟩ := saves.logs
  obtain ⟨access, readable, writable, found⟩ := saves.node
  obtain ⟨change, width, changed, asked, wide, carriedOut, rfl⟩ := saves.changed
  have stores := (World.listens_of_listen listened).stores resolves found readable writable
    unlimited elsewhere
  have storesLoaded := stores.alike (.reportAll listening
    (Document.loadNotices { path := Path.ofText options.file } file.lines))
  obtain ⟨after, saved, storesAfter⟩ :=
    changeAndSave_stored (Document.withLines { path := Path.ofText options.file } file.lines) width
      storesLoaded saves.text carriedOut saves.wet
  refine ⟨after, ?_, storesAfter⟩
  rw [run_apply, saves.parsed]
  simp only
  rw [runOptions_apply, listened]
  simp only [isFile_of_stores stores, wide]
  rw [loadAndAct_apply, stores.textFile saves.text]
  simp only [act, asked, saved]
  rfl

theorem alikeOffLog_preview (document : Document) (world : World) :
    world.AlikeOffLog ((document.preview : StateM World _) world).2 := by
  rw [Document.preview, bind_apply, Document.prepare_apply]
  cases world.textFile document.path with
  | error failure => exact .refl world
  | ok file => exact .reportAll world _

theorem saveOrPreview_kept (document : Document) {dryRun : Bool}
    (resolves : world.tree.resolve document.path = .ok location)
    (unlogged : world.logFile ≠ some location)
    (spared : dryRun = false → ∀ access old,
      world.tree.node? location = some (.file access old) → access.write = false) :
    ((saveOrPreview document dryRun : StateM World _) world).2.tree.node? location =
      world.tree.node? location := by
  unfold saveOrPreview
  cases dryRun with
  | true => exact (alikeOffLog_preview document world).node location unlogged
  | false =>
      refine save_elsewhere resolves unlogged unlogged fun access old found writable => ?_
      rw [spared rfl access old found] at writable
      contradiction

theorem act_kept {width : Nat} (resolves : world.tree.resolve document.path = .ok location)
    (unlogged : world.logFile ≠ some location)
    (spared : ∀ change changed, options.action = .change change →
      change.carryOut document options.entries = .ok changed → options.dryRun = false →
      ∀ access old, world.tree.node? location = some (.file access old) → access.write = false) :
    ((act document options width : StateM World _) world).2.tree.node? location =
      world.tree.node? location := by
  unfold act
  cases asked : options.action with
  | list => rfl
  | showBlock name =>
      simp only
      cases document.outline.find? name <;> rfl
  | change change =>
      simp only
      rw [changeAndSave_apply]
      cases carriedOut : change.carryOut document options.entries with
      | error cause => rfl
      | ok changed =>
          have resolvesChanged : world.tree.resolve changed.path = .ok location := by
            rw [path_carryOut carriedOut]
            exact resolves
          have kept := saveOrPreview_kept { changed with settings := options.settings width }
            resolvesChanged unlogged (spared change changed asked carriedOut)
          simp only
          cases saving : (saveOrPreview { changed with settings := options.settings width }
              options.dryRun : StateM World _) world with
          | mk result after =>
              rw [saving] at kept
              cases result <;> exact kept

theorem loadAndAct_kept {path : Path} {width : Nat}
    (resolves : world.tree.resolve path = .ok location)
    (unlogged : world.logFile ≠ some location) {access : Access}
    (found : world.tree.node? location = some (.file access content))
    (spared : ∀ file change changed, TextFile.ofBytes content = .ok file → access.read = true →
      access.write = true → options.action = .change change →
      change.carryOut (Document.withLines { path := path } file.lines) options.entries =
        .ok changed → options.dryRun = false → False) :
    ((loadAndAct path options width : StateM World _) world).2.tree.node? location =
      world.tree.node? location := by
  rw [loadAndAct_apply]
  cases read : world.textFile path with
  | error cause => rfl
  | ok file =>
      have noted := World.AlikeOffLog.reportAll world
        (Document.loadNotices { path := path } file.lines)
      have same := noted.node location unlogged
      rcases node?_of_textFile resolves read with
        sink | ⟨_, _, foundReadable, readable, text⟩
      · rw [found] at sink
        cases sink
      · rw [found] at foundReadable
        cases foundReadable
        refine (act_kept ((noted.resolve path).trans resolves) (noted.logFile ▸ unlogged)
          fun change changed asked carriedOut wet mode old foundNoted => ?_).trans same
        rw [same, found] at foundNoted
        cases foundNoted
        exact Bool.not_eq_true _ ▸ fun writable =>
          spared file change changed text readable writable asked carriedOut wet

/-- A command line leaves the file as it is if it does not get as far as saving. -/
theorem run_kept (concerns : Concerns words world location) {access : Access}
    (found : world.tree.node? location = some (.file access content))
    (spared : ∀ options file document,
      ¬ Saves words options world location content file document) :
    ((run words : StateM World _) world).2.tree.node? location =
      world.tree.node? location := by
  rw [run_apply]
  cases parsed : Options.ofWords words with
  | error stop => rfl
  | ok options =>
      obtain ⟨resolves, elsewhere⟩ := concerns options parsed
      simp only
      rw [runOptions_apply]
      cases listened : world.listen options.level options.logPath? with
      | mk result listening =>
          cases result with
          | error cause =>
              rw [World.eq_of_listen_eq_error listened]
          | ok =>
              have listens := World.listens_of_listen listened
              have kept := listens.kept location _ found
              have unlogged := listens.unlogged elsewhere
              rw [found, ← kept]
              simp only
              cases listening.tree.isFile (Path.ofText options.file) with
              | error cause => rfl
              | ok there =>
                  cases there with
                  | false => rfl
                  | true =>
                      cases wide : options.indentWidth with
                      | error cause => rfl
                      | ok width =>
                          simp only
                          exact loadAndAct_kept ((listens.resolve _ _).mpr resolves) unlogged kept
                            fun file change changed text readable writable asked carriedOut wet =>
                              spared options file _ ⟨parsed, wet, ⟨listening, listened⟩,
                                ⟨access, readable, writable, found⟩, text,
                                ⟨change, width, changed, asked, wide, carriedOut, rfl⟩⟩

theorem content?_of_stores {path : Path} (stores : world.Stores path location content) :
    world.tree.content? location = some content := by
  obtain ⟨access, -, -, found⟩ := stores.node
  exact FileTree.content?_eq_some_iff.mpr ⟨access, found⟩

/-- A command line that ends with a failure has left its file as it was, or has saved a change of
which some blocks could not be located: it reports these, and the file holds what saving all others
leaves. This is how every command line ends that gets as far as saving such a change. -/
theorem run_failed (unlimited : world.limit = none) (concerns : Concerns words world location)
    (held : world.tree.content? location = some content) :
    (∀ output complaint after,
      (run words : StateM World _) world = (.exited 1 output complaint, after) →
        after.tree.content? location = some content ∨
          ∃ options file document, Saves words options world location content file document ∧
            (document.commitTo file.lines).errors ≠ [] ∧
            output =
              saveReport (document.commitTo file.lines) (Path.ofText options.file) false ∧
            complaint = none ∧
            after.tree.content? location =
              some ((document.locatable file.lines).savedBytes file content)) ∧
      (∀ options file document, Saves words options world location content file document →
        (document.commitTo file.lines).errors ≠ [] →
          ∃ after, (run words : StateM World _) world =
              (.exited 1
                (saveReport (document.commitTo file.lines) (Path.ofText options.file) false) none,
                after) ∧
            after.tree.content? location =
              some ((document.locatable file.lines).savedBytes file content)) ∧
      ∀ (document : Document) (file : TextFile),
        ((document.locatable file.lines).commitTo file.lines).errors = [] := by
  refine ⟨?_, ?_, fun document file => (document.savedBytes_locatable file content).2⟩
  · intro output complaint after failed
    by_cases reached : ∃ options file document,
        Saves words options world location content file document
    · obtain ⟨options, file, document, saves⟩ := reached
      obtain ⟨saved, ended, stores⟩ := run_of_saves unlimited concerns saves
      rw [failed] at ended
      obtain ⟨outcome, rfl⟩ := Prod.mk.inj ended
      obtain ⟨status, rfl, rfl⟩ := Outcome.exited.inj outcome
      have incomplete : (document.commitTo file.lines).success = false := by
        by_contra complete
        rw [Bool.not_eq_false] at complete
        simp [complete] at status
      refine .inr ⟨options, file, document, saves, ?_, rfl, rfl, ?_⟩
      · intro complete
        rw [Commit.success, complete] at incomplete
        contradiction
      · rw [content?_of_stores stores, (document.savedBytes_locatable file content).1]
    · have spared : ∀ options file document,
          ¬ Saves words options world location content file document :=
        fun options file document saves => reached ⟨options, file, document, saves⟩
      left
      unfold FileTree.content? at held
      split at held
      · rename_i access own found
        cases held
        have kept := run_kept concerns found spared
        rw [failed] at kept
        rw [FileTree.content?, kept.trans found]
      · contradiction
  · intro options file document saves incomplete
    obtain ⟨after, ended, stores⟩ := run_of_saves unlimited concerns saves
    have failure : (document.commitTo file.lines).success = false := by
      rw [Commit.success, List.isEmpty_eq_false_iff]
      exact incomplete
    rw [failure] at ended
    refine ⟨after, ended, ?_⟩
    rw [content?_of_stores stores, (document.savedBytes_locatable file content).1]

def bodilessText : Text :=
  ['e', 'n', 'u', 'm', ' ', 'A', '{', 'X', '}', '\n', 'e', 'n', 'u', 'm', ' ', 'B']

def emptyingWords : List Text :=
  [['T'], ['-', '-', 's', 'e', 't'], ['A']]

theorem run_failed_bodilessText :
    ∃ output after, (run emptyingWords : StateM World _) (machineWith (Utf8.encode bodilessText)) =
        (.exited 1 output none, after) ∧
      after.tree.content? [['T']] = some (Utf8.encode
        (Text.joinWith ['\n'] (Block.render ⟨['A'], []⟩ [] [] {} ++
          [['e', 'n', 'u', 'm', ' ', 'B']]))) := by
  have concerns : Concerns emptyingWords (machineWith (Utf8.encode bodilessText)) [['T']] := by
    intro options parsed
    cases parsed
    exact ⟨rfl, fun ⟨path, logged, _⟩ => by cases logged⟩
  have failed := (run_failed rfl concerns
    (show (machineWith (Utf8.encode bodilessText)).tree.content? [['T']] = some _ from rfl)).2.1
    _ (.ofText bodilessText false) _
    ⟨rfl, rfl, ⟨_, rfl⟩, ⟨.ofDigit 6, rfl, rfl, rfl⟩, rfl, ⟨_, _, _, rfl, rfl, rfl, rfl⟩⟩ (by decide)
  obtain ⟨after, ended, content⟩ := failed
  exact ⟨_, after, ended, content⟩

def loggingWords : List Text :=
  [['T'], ['-', '-', 's', 'h', 'o', 'w'], ['C'], ['-', '-', 'l', 'o', 'g', '-', 'f', 'i', 'l', 'e'],
   ['T'], ['-', 'v']]

/-- A command line that ends with a failure may change its file: by saving a change in part, and by
writing to it as the log file. -/
theorem content_ne_of_run_failed :
    (∃ output after changed,
      (run emptyingWords : StateM World _) (machineWith (Utf8.encode bodilessText)) =
          (.exited 1 output none, after) ∧
        after.tree.content? [['T']] = some changed ∧ changed ≠ Utf8.encode bodilessText) ∧
      ∃ output after changed,
        (run loggingWords : StateM World _) (machineWith []) = (.exited 1 output none, after) ∧
          after.tree.content? [['T']] = some changed ∧ changed ≠ [] := by
  refine ⟨⟨_, _, _, rfl, rfl, by decide +kernel⟩, _, _, _, rfl, rfl, by decide +kernel⟩

end CommandLine

end EnumBlocks
