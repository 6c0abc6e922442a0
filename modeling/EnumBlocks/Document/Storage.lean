import EnumBlocks.Document.Basic
import EnumBlocks.Outline.Reader
import EnumBlocks.TextFile

/-!
Loading and saving a document. Saving reads the file again and writes the blocks into the lines that
it holds then, so that changes made there by others stay.
-/

namespace EnumBlocks.Document

variable {m : Type → Type} [Monad m] [Host m]

def readText (path : Path) : m (Except Failure TextFile) := do
  match ← readFile path with
  | .error cause => return .error (.file cause)
  | .ok bytes =>
      match TextFile.ofBytes bytes with
      | .error fault => return .error (.encoding fault)
      | .ok file => return .ok file

/-- The document as it is right after its file was read. -/
def withLines (document : Document) (lines : List Text) : Document :=
  let outline := Outline.ofLines lines
  { document with outline := outline, loaded := outline, pending := {} }

/-- Read the file and forget all changes. -/
def load (document : Document) : m (Except Failure (TextFile × Document)) := do
  match ← readText document.path with
  | .error failure => return .error failure
  | .ok file =>
      let loaded := document.withLines file.lines
      noteAll (Reading.ofLines file.lines).notices
      note (.loaded loaded.outline.size document.path.toText)
      return .ok (file, loaded)

/-- The blocks that need not be written again if they are as they are here. -/
def baseline (document : Document) : Option Outline :=
  if document.settings.savesUnchanged then none else some document.loaded

def commitTo (document : Document) (lines : List Text) : Commit :=
  commit lines document.outline document.pending document.settings document.baseline

def prepare (document : Document) : m (Except Failure (TextFile × Commit)) := do
  match ← readText document.path with
  | .error failure => return .error failure
  | .ok file =>
      let prepared := document.commitTo file.lines
      noteAll prepared.notices
      return .ok (file, prepared)

def preview (document : Document) : m (Except Failure Commit) := do
  match ← document.prepare with
  | .error failure => return .error failure
  | .ok (_, prepared) => return .ok prepared

/-- Write changed lines to the file in its own format. Where nothing changed, the file is left
alone. -/
def store (document : Document) (file : TextFile) (prepared : Commit) :
    m (Except Failure Unit) := do
  if prepared.changed then
    match ← writeFile document.path { file with lines := prepared.lines }.toBytes with
    | .error cause => return .error (.file cause)
    | .ok () =>
        note (.saved document.path.toText)
        return .ok ()
  else
    note .unchanged
    return .ok ()

/-- Write the blocks into the lines of the file, store them, and load the file again. -/
def save (document : Document) : m (Except Failure (Commit × Document)) := do
  match ← document.prepare with
  | .error failure => return .error failure
  | .ok (file, prepared) =>
      match ← document.store file prepared with
      | .error failure => return .error failure
      | .ok () =>
          match ← document.load with
          | .error failure => return .error failure
          | .ok (_, reloaded) => return .ok (prepared, reloaded)

end EnumBlocks.Document
