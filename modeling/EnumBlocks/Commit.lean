import EnumBlocks.NameSet
import EnumBlocks.Outline.Basic
import EnumBlocks.Splice

/-!
Writing an outline into the lines of its document: first blocks are removed, then those that were
there are replaced, then new ones are added.
-/

namespace EnumBlocks

/-- The changes to the set of blocks that are not saved yet. -/
structure Pending where
  created : NameSet := .empty
  deleted : NameSet := .empty
  deriving DecidableEq, Repr

def Pending.isEmpty (pending : Pending) : Bool :=
  pending.created.isEmpty && pending.deleted.isEmpty

/-- What has become of a document and of the blocks that were to be written into it. -/
structure Commit where
  /-- The lines before. -/
  before : List Text
  /-- The lines now. -/
  lines : List Text
  deleted : List Text := []
  updated : List Text := []
  inserted : List Text := []
  /-- Names of blocks that were to be removed or replaced and could not be located. -/
  missing : List Text := []
  /-- Why blocks could not be replaced. -/
  errors : List SpanError := []
  notices : List Notice := []
  deriving DecidableEq, Repr

namespace Commit

def changed (commit : Commit) : Bool :=
  decide (commit.lines ≠ commit.before)

def success (commit : Commit) : Bool :=
  commit.errors.isEmpty

def start (lines : List Text) : Commit :=
  { before := lines, lines := lines }

def delete (settings : Settings) (commit : Commit) (name : Text) : Commit :=
  match Splice.remove name commit.lines settings with
  | .ok splice =>
      { commit with
        lines := splice.lines
        deleted := commit.deleted ++ [name]
        notices := commit.notices ++ [.deleted name] }
  | .error cause =>
      { commit with
        missing := commit.missing ++ [name]
        notices := commit.notices ++ [.nothingToDelete cause] }

def update (settings : Settings) (commit : Commit) (block : Block) : Commit :=
  match Splice.replace block commit.lines settings with
  | .ok splice =>
      { commit with lines := splice.lines, updated := commit.updated ++ [block.name] }
  | .error cause =>
      { commit with
        missing := commit.missing ++ [block.name]
        errors := commit.errors ++ [cause]
        notices := commit.notices ++ [.notUpdated cause] }

/-- Add a new block, or replace the one of its name that is there after all. -/
def insert (settings : Settings) (commit : Commit) (block : Block) : Commit :=
  match Splice.append block commit.lines settings with
  | .ok splice =>
      { commit with lines := splice.lines, inserted := commit.inserted ++ [block.name] }
  | .error conflict =>
      let warned := { commit with notices := commit.notices ++ [.updatedInstead conflict] }
      match Splice.replace block commit.lines settings with
      | .ok splice =>
          { warned with lines := splice.lines, updated := commit.updated ++ [block.name] }
      | .error _ => warned

end Commit

/-- The blocks to replace: those that are neither new nor to be removed, without those that are as
they are in the baseline, if there is one. -/
def blocksToUpdate (outline : Outline) (pending : Pending) (baseline : Option Outline) :
    List Block :=
  outline.blocks.filter fun block =>
    block.name ∉ pending.created && block.name ∉ pending.deleted &&
      !(baseline.any fun old => old.find? block.name == some block)

/-- The blocks to add: those that are new and not to be removed. -/
def blocksToInsert (outline : Outline) (pending : Pending) : List Block :=
  outline.blocks.filter fun block =>
    block.name ∈ pending.created && block.name ∉ pending.deleted

/-- Write an outline into the lines of its document. With a baseline, blocks that are as they are
there are left alone. -/
def commit (lines : List Text) (outline : Outline) (pending : Pending) (settings : Settings)
    (baseline : Option Outline) : Commit :=
  let deletions := pending.deleted.names.foldl (Commit.delete settings) (Commit.start lines)
  let updates := (blocksToUpdate outline pending baseline).foldl (Commit.update settings) deletions
  (blocksToInsert outline pending).foldl (Commit.insert settings) updates

end EnumBlocks
