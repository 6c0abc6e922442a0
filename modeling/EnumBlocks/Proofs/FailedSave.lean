import EnumBlocks.Proofs.StoredFile

/-!
What a save leaves in the file of a document when it fails. The file is as it was, but for one way
to fail: its new contents are longer than the machine lets a file grow. They are then written up to
the limit, in the place of the old ones. The document itself is as it was whatever request fails.
-/

namespace EnumBlocks

section Write

variable {world : World} {path : Path} {location : Location}
  (resolves : world.tree.resolve path = .ok location)

include resolves in
/-- A path that can be read leads to a file that may be read or to a device. -/
theorem node?_of_textFile {file : TextFile} (read : world.textFile path = .ok file) :
    world.tree.node? location = some .sink ∨
      ∃ access old, world.tree.node? location = some (.file access old) ∧ access.read = true ∧
        TextFile.ofBytes old = .ok file := by
  rw [World.textFile, FileTree.readFile, resolves] at read
  cases found : world.tree.node? location with
  | none => simp [found] at read
  | some node =>
      cases node with
      | sink => exact .inl rfl
      | directory access => simp [found] at read
      | file access old =>
          cases readable : access.read with
          | false => simp [found, readable] at read
          | true =>
              simp only [found, readable, if_true] at read
              refine .inr ⟨access, old, rfl, readable, ?_⟩
              cases text : TextFile.ofBytes old with
              | error fault => simp [text] at read
              | ok own =>
                  rw [text] at read
                  cases read
                  rfl

include resolves in
/-- Where something can be read, writing changes nothing, or there is a file that may be written. -/
theorem write_of_textFile {file : TextFile} (read : world.textFile path = .ok file)
    (content : Bytes) :
    (∃ result, world.write path content = (result, world)) ∨
      ∃ access old, world.tree.node? location = some (.file access old) ∧ access.read = true ∧
        access.write = true ∧ TextFile.ofBytes old = .ok file := by
  rcases node?_of_textFile resolves read with sink | ⟨access, old, found, readable, text⟩
  · refine .inl ⟨.ok (), ?_⟩
    rw [World.write, FileTree.openFile, resolves]
    simp only [sink, FileTree.update, true_or, if_true]
  · cases writable : access.write with
    | false =>
        exact .inl ⟨_, write_of_denied resolves found writable content⟩
    | true => exact .inr ⟨access, old, found, readable, writable, text⟩

include resolves in
/-- A refused write leaves what was there, unless it is cut off at the limit. -/
theorem write_refused {file : TextFile} (read : world.textFile path = .ok file) {content : Bytes}
    {cause : FileError} {after : World}
    (refused : world.write path content = (.error cause, after)) :
    after.tree.node? location = world.tree.node? location ∨
      ∃ access old limit, world.tree.node? location = some (.file access old) ∧
        access.read = true ∧ access.write = true ∧ TextFile.ofBytes old = .ok file ∧
        world.limit = some limit ∧ limit < content.length ∧ cause = .tooLarge ∧
        after.tree.node? location = some (.file access (content.take limit)) := by
  rcases write_of_textFile resolves read content with
    ⟨result, same⟩ | ⟨access, old, found, readable, writable, text⟩
  · rw [same] at refused
    cases refused
    exact .inl rfl
  · rw [write_of_file resolves found writable] at refused
    cases fits : world.fits content with
    | true => simp [fits] at refused
    | false =>
        obtain ⟨limit, limited, beyond, cut⟩ := exists_limit_of_not_fits fits
        simp only [fits, Bool.false_eq_true, if_false, Prod.mk.injEq, Except.error.injEq]
          at refused
        obtain ⟨rfl, rfl⟩ := refused
        refine .inr ⟨access, old, limit, found, readable, writable, text, limited, beyond, rfl, ?_⟩
        rw [← cut]
        exact FileTree.node?_update found fun _ => world.cut content

include resolves in
theorem textFile_of_written {file written : TextFile} (read : world.textFile path = .ok file)
    {content : Bytes} (text : TextFile.ofBytes content = .ok written) {after : World}
    (done : world.write path content = (.ok (), after)) :
    after.tree.resolve path = .ok location ∧ after.logFile = world.logFile ∧
      ∃ reloaded, after.textFile path = .ok reloaded := by
  rcases write_of_textFile resolves read content with
    ⟨result, same⟩ | ⟨access, old, found, readable, -, -⟩
  · rw [same] at done
    cases done
    exact ⟨resolves, rfl, file, read⟩
  · obtain rfl := write_eq_ok resolves found done
    have resolvesAfter : (world.tree.update location fun _ => content).resolve path =
        .ok location := (FileTree.resolve_update _ path).trans resolves
    have foundAfter := FileTree.node?_update found fun _ => content
    exact ⟨resolvesAfter, rfl, written,
      textFile_of_file resolvesAfter foundAfter readable text⟩

end Write

/-- Whether the new contents of the file of a document are longer than the machine lets a file grow:
what is there may be read and replaced, and what a save would replace it by is beyond the limit. -/
structure Document.Overflows (document : Document) (world : World) (location : Location)
    (access : Access) (old written : Bytes) (limit : Nat) : Prop where
  resolves : world.tree.resolve document.path = .ok location
  node : world.tree.node? location = some (.file access old)
  readable : access.read = true
  writable : access.write = true
  changed : ∃ file, TextFile.ofBytes old = .ok file ∧
    (document.commitTo file.lines).changed = true ∧
    written = { file with lines := (document.commitTo file.lines).lines }.toBytes
  limited : world.limit = some limit
  beyond : limit < written.length

namespace Document

variable {document : Document} {world : World} {location : Location}
  (resolves : world.tree.resolve document.path = .ok location)
  (unlogged : world.logFile ≠ some location)

theorem exists_load {file : TextFile} (read : world.textFile document.path = .ok file) :
    ∃ after, (document.load : StateM World _) world =
      (.ok (file, document.withLines file.lines), after) := by
  rw [load_apply, read]
  exact ⟨_, rfl⟩

include resolves unlogged in
theorem exists_load_of_alike {file : TextFile} (read : world.textFile document.path = .ok file)
    {now : World} (alike : world.AlikeOffLog now) :
    ∃ loaded after, (document.load : StateM World _) now = (.ok loaded, after) := by
  obtain ⟨after, loading⟩ := exists_load ((alike.textFile_eq resolves unlogged).trans read)
  exact ⟨_, after, loading⟩

include resolves unlogged in
theorem exists_load_of_written {file written : TextFile}
    (read : world.textFile document.path = .ok file) {stored : World}
    (done : world.write document.path written.toBytes = (.ok (), stored)) (notice : Notice) :
    ∃ loaded after, (document.load : StateM World _) (stored.report notice) =
      (.ok loaded, after) := by
  obtain ⟨own, text⟩ := TextFile.exists_ofBytes_toBytes written
  obtain ⟨resolvesStored, logStored, reloaded, readStored⟩ :=
    textFile_of_written resolves read text done
  have unloggedStored : stored.logFile ≠ some location := by
    rw [logStored]
    exact unlogged
  exact exists_load_of_alike resolvesStored unloggedStored readStored (.report stored notice)

include resolves unlogged in
theorem save_failed_at {failure : Failure} {after : World}
    (failed : (document.save : StateM World _) world = (.error failure, after)) :
    after.tree.node? location = world.tree.node? location ∨
      ∃ access old written limit, document.Overflows world location access old written limit ∧
        failure = .file .tooLarge ∧
        after.tree.node? location = some (.file access (written.take limit)) := by
  rw [save_apply, prepare_apply] at failed
  cases read : world.textFile document.path with
  | error cause =>
      rw [read] at failed
      cases failed
      exact .inl rfl
  | ok file =>
      have noted := World.AlikeOffLog.reportAll world (document.commitTo file.lines).notices
      have resolvesNoted := (noted.resolve document.path).trans resolves
      have readNoted := noted.textFile_eq resolves unlogged
      rw [read] at failed readNoted
      simp only [store_apply] at failed
      cases changed : (document.commitTo file.lines).changed with
      | false =>
          -- Nothing is written, and what was read once can be read again.
          obtain ⟨loaded, now, loading⟩ := exists_load_of_alike resolves unlogged read
            (noted.trans (.report _ .unchanged))
          simp only [changed, Bool.false_eq_true, if_false, loading] at failed
          cases failed
      | true =>
          simp only [changed, if_true] at failed
          cases writing :
              (world.reportAll (document.commitTo file.lines).notices).write document.path
                { file with lines := (document.commitTo file.lines).lines }.toBytes with
          | mk result stored =>
              rw [writing] at failed
              cases result with
              | error cause =>
                  cases failed
                  have sameNode := noted.node location unlogged
                  rcases write_refused resolvesNoted readNoted writing with
                    kept | ⟨access, old, limit, found, readable, writable, text, limited, beyond,
                      rfl, cut⟩
                  · exact .inl (kept.trans sameNode)
                  · have overflows : document.Overflows world location access old _ limit :=
                      ⟨resolves, sameNode ▸ found, readable, writable, ⟨file, text, changed, rfl⟩,
                        noted.limit ▸ limited, beyond⟩
                    exact .inr ⟨access, old, _, limit, overflows, rfl, cut⟩
              | ok =>
                  have unloggedNoted : (world.reportAll
                      (document.commitTo file.lines).notices).logFile ≠ some location := by
                    rw [noted.logFile]
                    exact unlogged
                  obtain ⟨loaded, now, loading⟩ :=
                    exists_load_of_written resolvesNoted unloggedNoted readNoted writing
                      (.saved document.path.toText)
                  simp only [loading] at failed
                  cases failed

include unlogged in
/-- A save that would go beyond the limit fails and leaves the file cut off there. -/
theorem save_of_overflows {access : Access} {old written : Bytes} {limit : Nat}
    (overflows : document.Overflows world location access old written limit) :
    ∃ after, (document.save : StateM World _) world = (.error (.file .tooLarge), after) ∧
      after.tree.node? location = some (.file access (written.take limit)) := by
  obtain ⟨file, text, changed, rfl⟩ := overflows.changed
  have read := textFile_of_file overflows.resolves overflows.node overflows.readable text
  have noted := World.AlikeOffLog.reportAll world (document.commitTo file.lines).notices
  have found := (noted.node location unlogged).trans overflows.node
  have limited := noted.limit.trans overflows.limited
  have replaced := write_of_file ((noted.resolve document.path).trans overflows.resolves) found
    overflows.writable { file with lines := (document.commitTo file.lines).lines }.toBytes
  have beyond : (world.reportAll (document.commitTo file.lines).notices).fits
      { file with lines := (document.commitTo file.lines).lines }.toBytes = false := by
    rw [World.fits, limited, Option.all_some, decide_eq_false_iff_not]
    exact Nat.not_le.mpr overflows.beyond
  rw [beyond, if_neg (by decide)] at replaced
  rw [save_apply, prepare_apply, read]
  simp only [store_apply, changed, if_true, replaced]
  refine ⟨_, rfl, ?_⟩
  have cut := FileTree.node?_update found fun _ =>
    (world.reportAll (document.commitTo file.lines).notices).cut
      { file with lines := (document.commitTo file.lines).lines }.toBytes
  rw [cut, World.cut, limited]

include resolves unlogged in
/-- A save that fails leaves the file of the document as it was, or cut off: what should have been
written is there up to the limit, and nothing of what it was to replace. This is what comes of every
save that would go beyond the limit. -/
theorem save_failed :
    (∀ failure after, (document.save : StateM World _) world = (.error failure, after) →
      after.tree.node? location = world.tree.node? location ∨
        ∃ access old written limit, document.Overflows world location access old written limit ∧
          failure = .file .tooLarge ∧
          after.tree.node? location = some (.file access (written.take limit))) ∧
      ∀ access old written limit, document.Overflows world location access old written limit →
        ∃ after, (document.save : StateM World _) world = (.error (.file .tooLarge), after) ∧
          after.tree.node? location = some (.file access (written.take limit)) :=
  ⟨fun _ _ failed => save_failed_at resolves unlogged failed,
    fun _ _ _ _ overflows => save_of_overflows unlogged overflows⟩

end Document

/-- A machine whose file has one line, with a block on it, and may not grow beyond three bytes. -/
def limitedMachine : World :=
  { machineWith (Utf8.encode ['e', 'n', 'u', 'm', ' ', 'A', '{', '}']) with limit := some 3 }

def smallDocument : Document where
  path := onlyPath
  outline := ⟨[⟨['A'], []⟩], by decide⟩
  loaded := ⟨[⟨['A'], []⟩], by decide⟩

theorem save_failed_limitedMachine :
    ∃ after, (smallDocument.save : StateM World _) limitedMachine =
        (.error (.file .tooLarge), after) ∧
      after.tree.node? [['T']] = some (.file (.ofDigit 6) (Utf8.encode ['p', 'u', 'b'])) := by
  have resolves : limitedMachine.tree.resolve smallDocument.path = .ok [['T']] := rfl
  have unlogged : limitedMachine.logFile ≠ some [['T']] := Option.some_ne_none _ |>.symm
  have overflows : smallDocument.Overflows limitedMachine [['T']] (.ofDigit 6)
      (Utf8.encode ['e', 'n', 'u', 'm', ' ', 'A', '{', '}'])
      (Utf8.encode (Text.joinWith ['\n'] (Block.render ⟨['A'], []⟩ [] [] {}))) 3 := by
    refine ⟨resolves, rfl, rfl, rfl, ?_, rfl, by decide⟩
    exact ⟨.ofText ['e', 'n', 'u', 'm', ' ', 'A', '{', '}'] false, by decide, by decide, by decide⟩
  exact (Document.save_failed resolves unlogged).2 _ _ _ _ overflows

/-- A request that fails leaves the document as it was, also where it fails in the middle of a
save. -/
theorem Document.handle_failed {document next : Document} {request : Request} {failure : Failure}
    {world after : World}
    (failed : (document.handle request : StateM World _) world = ((.error failure, next), after)) :
    next = document := by
  rw [handle_apply] at failed
  cases carriedOut : (document.perform request : StateM World _) world with
  | mk result later =>
      rw [carriedOut] at failed
      cases result with
      | error cause =>
          cases failed
          rfl
      | ok parts => cases failed

/-- A save whose new contents are too long: the file is cut off, the document is not touched. -/
theorem Document.handle_failed_limitedMachine :
    ∃ next after,
      (smallDocument.handle .save : StateM World _) limitedMachine =
        ((.error (.file .tooLarge), next), after) ∧
      next = smallDocument ∧
      after.tree.node? [['T']] = some (.file (.ofDigit 6) (Utf8.encode ['p', 'u', 'b'])) := by
  have failed : (smallDocument.handle .save : StateM World _) limitedMachine =
      ((.error (.file .tooLarge), _), _) := rfl
  exact ⟨_, _, failed, Document.handle_failed failed, by decide⟩

end EnumBlocks
