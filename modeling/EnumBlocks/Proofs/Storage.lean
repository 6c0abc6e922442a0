import EnumBlocks.Document.Storage
import EnumBlocks.World

/-!
Loading and saving on a machine in memory, as functions of the machine: what is read, what is
reported, and what is left in the files.
-/

namespace EnumBlocks

def World.reportAll (world : World) (notices : List Notice) : World :=
  notices.foldl World.report world

theorem bind_apply {α β : Type} (action : StateM World α) (next : α → StateM World β)
    (world : World) : (action >>= next) world = next (action world).1 (action world).2 := rfl

theorem noteAll_apply (notices : List Notice) (world : World) :
    (noteAll notices : StateM World Unit) world = ((), world.reportAll notices) := by
  induction notices generalizing world with
  | nil => rfl
  | cons notice rest inductionHypothesis => exact inductionHypothesis (world.report notice)

def World.textFile (world : World) (path : Path) : Except Failure TextFile :=
  match world.tree.readFile path with
  | .error cause => .error (.file cause)
  | .ok bytes =>
      match TextFile.ofBytes bytes with
      | .error fault => .error (.encoding fault)
      | .ok file => .ok file

namespace Document

variable (document : Document) (world : World)

theorem readText_apply (path : Path) :
    (readText path : StateM World _) world = (world.textFile path, world) := by
  have reading : (readFile path : StateM World _) world = (world.tree.readFile path, world) := rfl
  simp only [readText, bind_apply, reading, World.textFile]
  cases world.tree.readFile path with
  | error cause => rfl
  | ok bytes =>
      simp only
      cases TextFile.ofBytes bytes <;> rfl

def loadNotices (lines : List Text) : List Notice :=
  (Reading.ofLines lines).notices ++
    [.loaded (document.withLines lines).outline.size document.path.toText]

theorem load_apply :
    (document.load : StateM World _) world =
      match world.textFile document.path with
      | .error failure => (.error failure, world)
      | .ok file =>
          (.ok (file, document.withLines file.lines),
            world.reportAll (document.loadNotices file.lines)) := by
  simp only [load, bind_apply, readText_apply]
  cases world.textFile document.path with
  | error failure => rfl
  | ok file =>
      simp only [bind_apply, noteAll_apply, World.reportAll, loadNotices, List.foldl_append]
      rfl

theorem prepare_apply :
    (document.prepare : StateM World _) world =
      match world.textFile document.path with
      | .error failure => (.error failure, world)
      | .ok file =>
          (.ok (file, document.commitTo file.lines),
            world.reportAll (document.commitTo file.lines).notices) := by
  simp only [prepare, bind_apply, readText_apply]
  cases world.textFile document.path with
  | error failure => rfl
  | ok file =>
      simp only [bind_apply, noteAll_apply]
      rfl

theorem store_apply (file : TextFile) (prepared : Commit) :
    (document.store file prepared : StateM World _) world =
      if prepared.changed then
        match world.write document.path { file with lines := prepared.lines }.toBytes with
        | (.error cause, after) => (.error (.file cause), after)
        | (.ok (), after) => (.ok (), after.report (.saved document.path.toText))
      else (.ok (), world.report .unchanged) := by
  unfold store
  split
  · have writing : (writeFile document.path { file with lines := prepared.lines }.toBytes :
        StateM World _) world =
        world.write document.path { file with lines := prepared.lines }.toBytes := rfl
    simp only [bind_apply, writing]
    cases world.write document.path { file with lines := prepared.lines }.toBytes with
    | mk result after => cases result <;> rfl
  · rfl

theorem save_apply :
    (document.save : StateM World _) world =
      match (document.prepare : StateM World _) world with
      | (.error failure, after) => (.error failure, after)
      | (.ok (file, prepared), noted) =>
          match (document.store file prepared : StateM World _) noted with
          | (.error failure, after) => (.error failure, after)
          | (.ok (), stored) =>
              match (document.load : StateM World _) stored with
              | (.error failure, after) => (.error failure, after)
              | (.ok (_, reloaded), after) => (.ok (prepared, reloaded), after) := by
  rw [save, bind_apply]
  cases (document.prepare : StateM World _) world with
  | mk preparation noted =>
      cases preparation with
      | error failure => rfl
      | ok parts =>
          simp only [bind_apply]
          cases (document.store parts.1 parts.2 : StateM World _) noted with
          | mk storing stored =>
              cases storing with
              | error failure => rfl
              | ok =>
                  simp only [bind_apply]
                  cases (document.load : StateM World _) stored with
                  | mk loading after => cases loading <;> rfl

end Document

end EnumBlocks
