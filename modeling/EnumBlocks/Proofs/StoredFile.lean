import EnumBlocks.Proofs.FileBytes
import EnumBlocks.Proofs.History
import EnumBlocks.Proofs.World

/-!
A file that can be read and written, and what loading and saving a document does to it. Notices may
go to a log file; they leave the file alone, as long as it is another.
-/

namespace EnumBlocks

/-- Whether a path leads to a file of some content, which may be read, written and made longer, and
which is not the log file. -/
structure World.Stores (world : World) (path : Path) (location : Location) (content : Bytes) :
    Prop where
  resolves : world.tree.resolve path = .ok location
  node : ∃ access, access.read = true ∧ access.write = true ∧
    world.tree.node? location = some (.file access content)
  unlogged : world.logFile ≠ some location
  unlimited : world.limit = none

namespace World.Stores

variable {world : World} {path : Path} {location : Location} {content : Bytes}
  (stores : world.Stores path location content)

include stores in
theorem write (written : Bytes) :
    ∃ after, world.write path written = (.ok (), after) ∧ after.Stores path location written := by
  obtain ⟨access, readable, writable, found⟩ := stores.node
  have fits : world.fits written = true := by rw [World.fits, stores.unlimited]; rfl
  rw [write_of_file stores.resolves found writable, if_pos fits, cut_eq_of_fits fits]
  refine ⟨_, rfl, ?_, ⟨access, readable, writable, ?_⟩, stores.unlogged, stores.unlimited⟩
  · rw [FileTree.resolve_update]
    exact stores.resolves
  · exact FileTree.node?_update found fun _ => written

include stores in
theorem alike {other : World} (alike : world.AlikeOffLog other) :
    other.Stores path location content := by
  obtain ⟨access, readable, writable, found⟩ := stores.node
  exact ⟨(alike.resolve path).trans stores.resolves,
    ⟨access, readable, writable, (alike.node location stores.unlogged).trans found⟩,
    alike.logFile ▸ stores.unlogged, alike.limit.trans stores.unlimited⟩

include stores in
theorem textFile {file : TextFile} (read : TextFile.ofBytes content = .ok file) :
    world.textFile path = .ok file := by
  obtain ⟨access, readable, -, found⟩ := stores.node
  exact textFile_of_file stores.resolves found readable read

end World.Stores

namespace Commit

variable (settings : Settings) (state : Commit)

theorem before_delete (name : Text) : (state.delete settings name).before = state.before := by
  unfold delete
  split <;> rfl

theorem before_update (block : Block) : (state.update settings block).before = state.before := by
  unfold update
  split <;> rfl

theorem before_insert (block : Block) : (state.insert settings block).before = state.before := by
  unfold insert
  split
  · rfl
  · simp only
    split <;> rfl

end Commit

theorem before_commit (lines : List Text) (outline : Outline) (pending : Pending)
    (settings : Settings) (baseline : Option Outline) :
    (commit lines outline pending settings baseline).before = lines := by
  have deleted : (pending.deleted.names.foldl (Commit.delete settings) (Commit.start lines)).before =
      lines :=
    List.foldlRecOn (motive := (·.before = lines)) _ _ (Eq.refl lines) fun held known name _ =>
      (Commit.before_delete settings held name).trans known
  have updated := List.foldlRecOn (motive := (·.before = lines))
    (blocksToUpdate outline pending baseline) (Commit.update settings) deleted
    fun held known block _ => (Commit.before_update settings held block).trans known
  exact List.foldlRecOn (motive := (·.before = lines)) (blocksToInsert outline pending)
    (Commit.insert settings) updated fun held known block _ =>
      (Commit.before_insert settings held block).trans known

theorem blocksToUpdate_eq_nil {outline loaded : Outline} {pending : Pending}
    (known : ∀ block ∈ outline.blocks, block.name ∉ pending.created →
      loaded.find? block.name = some block) :
    blocksToUpdate outline pending (some loaded) = [] := by
  rw [blocksToUpdate, List.filter_eq_nil_iff]
  intro block membership
  by_cases created : block.name ∈ pending.created
  · simp [created]
  · simp [known block membership created]

namespace Document

theorem baseline_eq {document : Document} (saves : document.settings.savesUnchanged = false) :
    document.baseline = some document.loaded := by
  rw [baseline]
  exact if_neg (by simp [saves])

/-- What saving a document leaves in its file: the bytes that were there, unless lines changed. -/
def savedBytes (document : Document) (file : TextFile) (content : Bytes) : Bytes :=
  if (document.commitTo file.lines).changed then
    { file with lines := (document.commitTo file.lines).lines }.toBytes
  else content

variable {document : Document} {world : World} {location : Location} {content : Bytes}
  {file : TextFile} (stores : world.Stores document.path location content)
  (read : TextFile.ofBytes content = .ok file)

theorem savedBytes_eq (document : Document) (file : TextFile) (content : Bytes) :
    document.savedBytes file content =
      if (document.commitTo file.lines).lines = file.lines then content
      else { file with lines := (document.commitTo file.lines).lines }.toBytes := by
  have known : (document.commitTo file.lines).before = file.lines :=
    before_commit file.lines document.outline document.pending document.settings document.baseline
  simp only [savedBytes, Commit.changed, known, decide_eq_true_eq, ne_eq, ite_not]

include read in
theorem exists_ofBytes_savedBytes (document : Document) :
    ∃ reloaded, TextFile.ofBytes (document.savedBytes file content) = .ok reloaded := by
  unfold savedBytes
  split
  · exact TextFile.exists_ofBytes_toBytes _
  · exact ⟨file, read⟩

include stores read in
theorem load_stored :
    ∃ after, (document.load : StateM World _) world =
        (.ok (file, document.withLines file.lines), after) ∧
      after.Stores document.path location content := by
  rw [load_apply, stores.textFile read]
  exact ⟨_, rfl, stores.alike (.reportAll world _)⟩

include stores in
theorem store_stored (file : TextFile) :
    ∃ after, (document.store file (document.commitTo file.lines) : StateM World _) world =
        (.ok (), after) ∧
      after.Stores document.path location (document.savedBytes file content) := by
  rw [store_apply, savedBytes]
  split
  · obtain ⟨after, written, storesAfter⟩ :=
      stores.write { file with lines := (document.commitTo file.lines).lines }.toBytes
    rw [written]
    exact ⟨_, rfl, storesAfter.alike (.report after _)⟩
  · exact ⟨_, rfl, stores.alike (.report world _)⟩

include stores read in
/-- A document whose file can be read and written is saved, and is then as the file is read. -/
theorem save_stored :
    ∃ reloaded after, TextFile.ofBytes (document.savedBytes file content) = .ok reloaded ∧
      (document.save : StateM World _) world =
        (.ok (document.commitTo file.lines, document.withLines reloaded.lines), after) ∧
      after.Stores document.path location (document.savedBytes file content) := by
  obtain ⟨reloaded, readAgain⟩ := exists_ofBytes_savedBytes read document
  obtain ⟨stored, storing, storesStored⟩ :=
    store_stored (stores.alike (.reportAll world (document.commitTo file.lines).notices)) file
  obtain ⟨after, loading, storesAfter⟩ := load_stored storesStored readAgain
  refine ⟨reloaded, after, readAgain, ?_, storesAfter⟩
  rw [save_apply, prepare_apply, stores.textFile read]
  simp only [storing, loading]

section Requests

variable {name : Text}

theorem replaceEntries_eq (present : name ∈ document.outline.names) (entries : List Entry) :
    document.replaceEntries name entries =
      .ok { document with outline := document.outline.put ⟨name, entries⟩ } := by
  obtain ⟨block, found⟩ := Outline.mem_names_iff.mp present
  obtain ⟨-, rfl⟩ := Outline.find?_eq_some_iff.mp found
  rw [replaceEntries, block?, found]
  rfl

end Requests

end Document

namespace Session

theorem run_nil (session : Session) : session.run [] = session := rfl

theorem run_request (session : Session) (request : Request) (rest : List Event) :
    session.run (.request request :: rest) = (session.ask request).run rest := rfl

/-- Whether nothing failed so far, the document is in some state, and its file has some content. -/
structure IsAt (session : Session) (document : Document) (location : Location) (content : Bytes) :
    Prop where
  reached : session.document = document
  stores : session.world.Stores document.path location content
  failures : session.failures = []

theorem isAt_opened {path : Path} {settings : Settings} {world : World} {location : Location}
    {content : Bytes} (stores : world.Stores path location content) :
    (opened path settings world).IsAt { path := path, settings := settings } location content :=
  ⟨rfl, stores, rfl⟩

namespace IsAt

variable {session : Session} {document next : Document} {location : Location}
  {content written : Bytes} (isAt : session.IsAt document location content)

include isAt in
theorem ask {request : Request} {reply : Reply} {after : World}
    (done : (document.perform request : StateM World _) session.world = (.ok (reply, next), after))
    (stores : after.Stores next.path location written) :
    (session.ask request).IsAt next location written := by
  rw [← isAt.reached] at done
  rw [ask_of_perform done]
  exact ⟨rfl, stores, isAt.failures⟩

include isAt in
theorem load {file : TextFile} (read : TextFile.ofBytes content = .ok file) :
    (session.ask .load).IsAt (document.withLines file.lines) location content := by
  obtain ⟨after, loaded, stores⟩ := Document.load_stored isAt.stores read
  have done : (document.perform .load : StateM World _) session.world =
      (.ok (.file file, document.withLines file.lines), after) := by
    rw [Document.perform, bind_apply, loaded]
    rfl
  exact isAt.ask done stores

include isAt in
theorem save {file : TextFile} (read : TextFile.ofBytes content = .ok file) :
    ∃ reloaded, TextFile.ofBytes (document.savedBytes file content) = .ok reloaded ∧
      (session.ask .save).IsAt (document.withLines reloaded.lines) location
        (document.savedBytes file content) := by
  obtain ⟨reloaded, after, readAgain, saved, stores⟩ := Document.save_stored isAt.stores read
  have done : (document.perform .save : StateM World _) session.world =
      (.ok (.commit (document.commitTo file.lines), document.withLines reloaded.lines), after) := by
    rw [Document.perform, bind_apply, saved]
    rfl
  exact ⟨reloaded, readAgain, isAt.ask done stores⟩

include isAt in
theorem create {name : Text} {block : Block} (created : document.create name = .ok (block, next)) :
    (session.ask (.create name)).IsAt next location content := by
  have done := Document.perform_create created session.world
  obtain ⟨-, -, -, rfl⟩ := Document.create_eq_ok created
  exact isAt.ask done isAt.stores

include isAt in
theorem remove {name : Text} (removed : document.remove name = .ok next) :
    (session.ask (.remove name)).IsAt next location content := by
  have done := Document.perform_remove removed session.world
  obtain ⟨-, rfl⟩ := Document.remove_eq_ok removed
  exact isAt.ask done isAt.stores

include isAt in
theorem replaceEntries {name : Text} {entries : List Entry}
    (replaced : document.replaceEntries name entries = .ok next) :
    (session.ask (.replaceEntries name entries)).IsAt next location content := by
  have done : (document.perform (.replaceEntries name entries) : StateM World _) session.world =
      (.ok (.done, next), session.world) := by
    rw [Document.perform, replaced]
    rfl
  obtain ⟨block, -, rfl⟩ := Document.replaceEntries_eq_ok replaced
  exact isAt.ask done isAt.stores

end IsAt

end Session

def machineWith (content : Bytes) : World :=
  { tree := { nodes := [([], .directory (.ofDigit 7)), ([['T']], .file (.ofDigit 6) content)] } }

def onlyPath : Path := ⟨.relative, [['T']]⟩

theorem stores_machineWith (content : Bytes) :
    (machineWith content).Stores onlyPath [['T']] content where
  resolves := rfl
  node := ⟨.ofDigit 6, rfl, rfl, rfl⟩
  unlogged := Option.some_ne_none _ |>.symm
  unlimited := rfl

end EnumBlocks
