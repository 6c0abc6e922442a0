import EnumBlocks.Block.InPlace
import EnumBlocks.Document.Storage

/-!
What is done to a document, step by step in place. Nothing is taken back when a later step fails.
-/

namespace EnumBlocks.Document

open Course

variable {m : Type → Type} [Monad m]

/-- Add a block with one entry: note that its name is new, or no longer to be removed, then put it
among the others. -/
def createInPlace (name : Text) : Course m Document Failure Block := do
  let document ← get
  if isIdentifier name = false then throw (.invalidName name)
  else if document.outline.contains name then throw (.nameTaken name)
  else
    let block : Block := ⟨name, [defaultEntry]⟩
    if name ∈ document.pending.deleted then
      modify fun document =>
        { document with
          pending := { document.pending with deleted := document.pending.deleted.erase name } }
    else
      modify fun document =>
        { document with
          pending := { document.pending with created := document.pending.created.insert name } }
    modify fun document => { document with outline := document.outline.put block }
    return block

/-- Remove a block, then note that it is gone. -/
def removeInPlace (name : Text) : Course m Document Failure Unit := do
  let document ← get
  if document.outline.contains name then
    modify fun document => { document with outline := document.outline.erase name }
    if name ∈ document.pending.created then
      modify fun document =>
        { document with
          pending := { document.pending with created := document.pending.created.erase name } }
    else
      modify fun document =>
        { document with
          pending := { document.pending with deleted := document.pending.deleted.insert name } }
  else throw (.unknownBlock name)

/-- Replace the entries of a block by given ones, which are values and held by no other block. -/
def replaceEntriesInPlace (name : Text) (entries : List Entry) :
    Course m Document Failure Unit := do
  let document ← get
  let block ← ofResult (document.block? name)
  modify fun document =>
    { document with outline := document.outline.put { block with entries := entries } }

/-- Edit the entries of a block. Whatever the edit leaves of the block, also where it breaks off, is
what the document has. -/
def editBlockInPlace (name : Text) (edit : Edit) : Course m Document Failure EditAnswer := do
  let document ← get
  let block ← ofResult (document.block? name)
  let (result, edited) := (Block.editInPlace edit).runOn block
  modify fun document => { document with outline := document.outline.put edited }
  ofResult (result.mapError .edit)

variable [Host m]

/-- Read the file, then replace the blocks, what is remembered of the last load, and what is
pending. -/
def loadInPlace : Course m Document Failure TextFile := do
  let document ← get
  let file ← attempt (readText document.path)
  act (noteAll (Reading.ofLines file.lines).notices)
  modify fun document => { document with outline := Outline.ofLines file.lines }
  modify fun document => { document with loaded := document.outline }
  modify fun document => { document with pending := {} }
  let document ← get
  act (note (.loaded document.outline.size document.path.toText))
  return file

def previewInPlace : Course m Document Failure Commit := do
  let document ← get
  let (_, prepared) ← attempt document.prepare
  return prepared

/-- Write the blocks into the lines of the file, store them, and load the file again. -/
def saveInPlace : Course m Document Failure Commit := do
  let document ← get
  let (file, prepared) ← attempt document.prepare
  attempt (document.store file prepared)
  let _ ← loadInPlace
  return prepared

end EnumBlocks.Document
