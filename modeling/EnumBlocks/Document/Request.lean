import EnumBlocks.Document.InPlace

/-!
Requests to a document, answered one after the other.
-/

namespace EnumBlocks

inductive Request where
  | load
  | create (name : Text)
  | remove (name : Text)
  /-- Replace the entries of a block by given ones, which no other block holds. -/
  | replaceEntries (name : Text) (entries : List Entry)
  | getBlock (name : Text)
  | isCreated (name : Text)
  | edit (name : Text) (edit : Edit)
  | preview
  | save
  | configure (settings : Settings)
  deriving DecidableEq, Repr

inductive Reply where
  | done
  | file (file : TextFile)
  /-- A block that was added or asked for. -/
  | block (block : Block)
  | yesNo (answer : Bool)
  | edited (answer : EditAnswer)
  /-- What saving did or would do. -/
  | commit (commit : Commit)
  deriving DecidableEq, Repr

namespace Document

variable {m : Type → Type} [Monad m] [Host m]

/-- What a request comes to as a whole: the answer and the changed document, or why it fails. -/
def perform (document : Document) : Request → m (Except Failure (Reply × Document))
  | .load => do return (← document.load).map fun (file, loaded) => (.file file, loaded)
  | .create name =>
      return (document.create name).map fun (block, changed) => (.block block, changed)
  | .remove name => return (document.remove name).map fun changed => (.done, changed)
  | .replaceEntries name entries =>
      return (document.replaceEntries name entries).map fun changed => (.done, changed)
  | .getBlock name => return (document.block? name).map fun block => (.block block, document)
  | .isCreated name => return .ok (.yesNo (document.isCreated name), document)
  | .edit name edit =>
      return (document.editBlock name edit).map fun (answer, changed) => (.edited answer, changed)
  | .preview => do return (← document.preview).map fun prepared => (.commit prepared, document)
  | .save => do return (← document.save).map fun (stored, saved) => (.commit stored, saved)
  | .configure settings => return .ok (.done, { document with settings := settings })

def performInPlace : Request → Course m Document Failure Reply
  | .load => return .file (← loadInPlace)
  | .create name => return .block (← createInPlace name)
  | .remove name => do
      removeInPlace name
      return .done
  | .replaceEntries name entries => do
      replaceEntriesInPlace name entries
      return .done
  | .getBlock name => do
      let document ← get
      return .block (← Course.ofResult (document.block? name))
  | .isCreated name => do
      let document ← get
      return .yesNo (document.isCreated name)
  | .edit name edit => return .edited (← editBlockInPlace name edit)
  | .preview => return .commit (← previewInPlace)
  | .save => return .commit (← saveInPlace)
  | .configure settings => do
      modify fun document => { document with settings := settings }
      return .done

/-- Answer a request: the reply, or why there is none, and the document that is left. -/
def handle (document : Document) (request : Request) : m (Except Failure Reply × Document) :=
  (performInPlace request).runOn document

end Document

end EnumBlocks
