import EnumBlocks.Block.Edit
import EnumBlocks.Commit
import EnumBlocks.Host

/-!
A document that is being edited: the blocks of its file as they were loaded and as they are now, and
which of them are to be added to the file or removed from it when it is saved; and why a request to it
fails.
-/

namespace EnumBlocks

inductive Failure where
  | file (cause : FileError)
  /-- The file is not text. -/
  | encoding (fault : Utf8.Fault)
  | invalidName (name : Text)
  | nameTaken (name : Text)
  | unknownBlock (name : Text)
  | edit (cause : EditError)
  deriving DecidableEq, Repr

def Failure.message : Failure → String
  | file cause => cause.message
  | encoding fault => fault.message
  | invalidName name => s!"Invalid enum name: {String.ofList (Text.quote name)}"
  | nameTaken name => s!"Enum '{String.ofList name}' already exists"
  | unknownBlock name => String.ofList (Text.quote name)
  | edit cause => cause.message

def defaultEntry : Entry :=
  ⟨['D', 'e', 'f', 'a', 'u', 'l', 't', 'V', 'a', 'l', 'u', 'e'], [], []⟩

structure Document where
  path : Path
  settings : Settings := {}
  /-- The blocks as they are now. -/
  outline : Outline := .empty
  /-- The blocks as they were loaded. -/
  loaded : Outline := .empty
  pending : Pending := {}
  deriving DecidableEq, Repr

namespace Document

def isCreated (document : Document) (name : Text) : Bool :=
  decide (name ∈ document.pending.created)

/-- Whether there is anything to save: blocks to add or remove, or blocks that are not as they were
loaded. Their order does not matter. -/
def hasChanges (document : Document) : Bool :=
  !document.pending.isEmpty || !document.outline.sameBlocks document.loaded

def shownBlocks (document : Document) : List Block :=
  document.outline.blocks.filter (·.name ∉ document.pending.deleted)

def block? (document : Document) (name : Text) : Except Failure Block :=
  match document.outline.find? name with
  | some block => .ok block
  | none => .error (.unknownBlock name)

/-- Add a block with one entry. A name that is to be removed from the file comes back; any other is
new. -/
def create (document : Document) (name : Text) : Except Failure (Block × Document) :=
  if isIdentifier name = false then .error (.invalidName name)
  else if document.outline.contains name then .error (.nameTaken name)
  else
    let block : Block := ⟨name, [defaultEntry]⟩
    let pending :=
      if name ∈ document.pending.deleted then
        { document.pending with deleted := document.pending.deleted.erase name }
      else { document.pending with created := document.pending.created.insert name }
    .ok (block, { document with outline := document.outline.put block, pending := pending })

/-- Remove a block. One that is new leaves no trace, any other is to be removed from the file. -/
def remove (document : Document) (name : Text) : Except Failure Document :=
  if document.outline.contains name then
    let pending :=
      if name ∈ document.pending.created then
        { document.pending with created := document.pending.created.erase name }
      else { document.pending with deleted := document.pending.deleted.insert name }
    .ok { document with outline := document.outline.erase name, pending := pending }
  else .error (.unknownBlock name)

/-- Replace the entries of a block by given ones. These are values and held by no other block: what is
edited here later is edited nowhere else. -/
def replaceEntries (document : Document) (name : Text) (entries : List Entry) :
    Except Failure Document :=
  (document.block? name).map fun block =>
    { document with outline := document.outline.put { block with entries := entries } }

def editBlock (document : Document) (name : Text) (edit : Edit) :
    Except Failure (EditAnswer × Document) :=
  match document.block? name with
  | .error failure => .error failure
  | .ok block =>
      match block.edit edit with
      | .error cause => .error (.edit cause)
      | .ok (answer, edited) =>
          .ok (answer, { document with outline := document.outline.put edited })

end Document

end EnumBlocks
