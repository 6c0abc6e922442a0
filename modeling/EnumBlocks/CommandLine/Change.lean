import EnumBlocks.CommandLine.Options
import EnumBlocks.Document.Basic

/-!
Changing the blocks of a document as a command line asks, with entries that are given there, each
written as in a document.
-/

namespace EnumBlocks.CommandLine

inductive SpecError where
  /-- It cannot be read, or its name is not an identifier. -/
  | invalid (spec : Text)
  | duplicate (name : Text)
  deriving DecidableEq, Repr

def SpecError.message : SpecError → String
  | invalid spec => s!"Invalid entry: {String.ofList (Text.quote spec)}"
  | duplicate name => s!"Duplicate entry name: {String.ofList (Text.quote name)}"

/-- Read an entry whose name has to be an identifier. -/
def readSpec? (spec : Text) : Option Entry :=
  (Entry.parse? spec).filter (isIdentifier ·.name)

def readSpecsFrom (before : List Entry) : List Text → Except SpecError (List Entry)
  | [] => .ok before
  | spec :: rest =>
      match readSpec? spec with
      | none => .error (.invalid spec)
      | some entry =>
          if entry.name ∈ before.map Entry.name then .error (.duplicate entry.name)
          else readSpecsFrom (before ++ [entry]) rest

/-- Read entries, no two of one name. -/
def readSpecs (specs : List Text) : Except SpecError (List Entry) :=
  readSpecsFrom [] specs

inductive ChangeError where
  | entries (cause : SpecError)
  | option (cause : OptionError)
  | refused (cause : Failure)
  /-- A block to remove or change is not there. -/
  | noBlock (name : Text)
  /-- The block has an entry of that name. -/
  | entryThere (entry block : Text)
  deriving DecidableEq, Repr

def ChangeError.message : ChangeError → String
  | entries cause => cause.message
  | option cause => cause.message
  | refused cause => cause.message
  | noBlock name => s!"enum '{String.ofList name}' not found"
  | entryThere entry block =>
      s!"Entry '{String.ofList entry}' already exists in '{String.ofList block}'"

def createWith (document : Document) (name : Text) (entries : List Entry) :
    Except ChangeError Document :=
  match document.create name with
  | .error cause => .error (.refused cause)
  | .ok (_, created) =>
      if entries = [] then .ok created
      else (created.replaceEntries name entries).mapError .refused

/-- Add entries at the end of a block. None may have the name of one that is there. -/
def appendTo (document : Document) (name : Text) (entries : List Entry) :
    Except ChangeError Document :=
  match document.outline.find? name with
  | none => .error (.noBlock name)
  | some block =>
      match entries.find? (·.name ∈ block.entryNames) with
      | some entry => .error (.entryThere entry.name name)
      | none => (document.replaceEntries name (block.entries ++ entries)).mapError .refused

def Change.applyTo (document : Document) (entries : List Entry) :
    Change → Except ChangeError Document
  | .create name => createWith document name entries
  | .delete name =>
      if document.outline.contains name then (document.remove name).mapError .refused
      else .error (.noBlock name)
  | .set name =>
      if document.outline.contains name then
        (document.replaceEntries name entries).mapError .refused
      else .error (.noBlock name)
  | .append name => appendTo document name entries

/-- Read entries of which some may have been left out. Those before the first gap are read first. -/
def readGiven (specs : List (Option Text)) : Except ChangeError (List Entry) :=
  match readSpecs ((specs.takeWhile Option.isSome).filterMap id) with
  | .error cause => .error (.entries cause)
  | .ok entries => if none ∈ specs then .error (.option .noEntry) else .ok entries

/-- Change the blocks of a document, given the entries as they are written. Wrong entries prevent
even a change that has no use for them. -/
def Change.carryOut (change : Change) (document : Document) (specs : List (Option Text)) :
    Except ChangeError Document :=
  match readGiven specs with
  | .error cause => .error cause
  | .ok entries => change.applyTo document entries

end EnumBlocks.CommandLine
