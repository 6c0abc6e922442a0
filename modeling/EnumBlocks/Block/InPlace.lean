import EnumBlocks.Block.Edit
import EnumBlocks.Course

/-!
The edits of a block's entries, made in place step by step.
-/

namespace EnumBlocks.Block

open Course

def addInPlace (name value comment : Text) : Course Id Block EditError Entry := do
  let block ← get
  if isIdentifier name then
    let entry : Entry := ⟨freshName block.entryNames name, value, comment⟩
    modify (·.append [entry])
    return entry
  else throw (.invalidName name)

def takeInPlace (index : Int) : Course Id Block EditError Entry := do
  let block ← get
  let (entry, rest) ← ofResult (block.take index)
  modify fun _ => rest
  return entry

def entryAt (block : Block) (index : Int) : Except EditError (Nat × Entry) :=
  match position? block.entries.length index with
  | none => .error (lookupError index)
  | some place =>
      match block.entries[place]? with
      | none => .error (lookupError index)
      | some entry => .ok (place, entry)

def renameInPlace (index : Int) (name : Text) : Course Id Block EditError Unit := do
  let block ← get
  let (place, entry) ← ofResult (block.entryAt index)
  if name = entry.name then return ()
  else if isIdentifier name = false then throw (.invalidName name)
  else if block.hasOther place name then throw (.duplicateName name)
  else
    modify fun block =>
      { block with entries := block.entries.set place { entry with name := name } }

/-- Move the entry at a position by an offset: take it out, then put it in again. -/
def moveInPlace (index offset : Int) : Course Id Block EditError Int := do
  let block ← get
  let target := block.moveTarget index offset
  if target = index then return target
  else
    let entry ← takeInPlace index
    modify fun block => { block with entries := block.entries.insertIdx target.toNat entry }
    return target

def editInPlace : Edit → Course Id Block EditError EditAnswer
  | .add name value comment => return .entry (← addInPlace name value comment)
  | .remove index => return .entry (← takeInPlace index)
  | .rename index name => do
      renameInPlace index name
      return .done
  | .move index offset => return .position (← moveInPlace index offset)

end EnumBlocks.Block
