import EnumBlocks.CommandLine.Change
import EnumBlocks.CommandLine.Help
import EnumBlocks.CommandLine.Report
import EnumBlocks.Document.Storage

/-!
Carrying out a command line, and how that ends.
-/

namespace EnumBlocks.CommandLine

inductive Outcome where
  /-- With an exit status, the lines printed, and what is said about a wrong command line. -/
  | exited (status : Nat) (output : List String) (complaint : Option String)
  /-- It cannot go on because of a file: the log file, or one in a place that is closed. -/
  | stoppedByFile (cause : FileError)
  /-- It cannot go on because an option cannot be carried out. -/
  | stoppedByOption (cause : OptionError)
  deriving DecidableEq, Repr

namespace Outcome

def success (output : List String) : Outcome :=
  .exited 0 output none

def failure (message : String) : Outcome :=
  .exited 1 [s!"Error: {message}"] none

end Outcome

def ChangeError.outcome : ChangeError → Outcome
  | .option cause => .stoppedByOption cause
  | cause => .failure cause.message

def Stop.outcome : Stop → Outcome
  | .help => .exited 0 helpLines none
  | .wrong error => .exited 2 [] (some s!"{programName}: error: {error.message}")

/-- The widest indentation that there is memory for, in characters: two to the power of 36. -/
def maxIndent : Nat := 0x1000000000

/-- The width of the indentation that options ask for. A negative one is as good as none. -/
def Options.indentWidth (options : Options) : Except OptionError Nat :=
  match options.indent with
  | none => .error .noIndent
  | some width =>
      if isIndex width = false then .error .indentTooWide
      else if maxIndent < width.toNat then .error .noMemory
      else .ok width.toNat

def Options.settings (options : Options) (width : Nat) : Settings :=
  { indentUnit := List.replicate width ' '
    counting := if options.legacyBraces then .perLine else .perCharacter
    savesUnchanged := !options.onlyChanged }

def Options.level (options : Options) : Level :=
  if options.verbose then .debug else .warning

/-- The log file that options ask for. Its path counts without steps to parent directories. -/
def Options.logPath? (options : Options) : Option Path :=
  (options.logFile.filter (· ≠ [])).map fun text => (Path.ofText text).collapse

variable {m : Type → Type} [Monad m] [Host m]

def saveOrPreview (document : Document) (dryRun : Bool) : m (Except Failure Commit) := do
  if dryRun then document.preview
  else return (← document.save).map Prod.fst

def changeAndSave (document : Document) (change : Change) (options : Options) (width : Nat) :
    m Outcome := do
  match change.carryOut document options.entries with
  | .error cause => return cause.outcome
  | .ok changed =>
      let configured := { changed with settings := options.settings width }
      match ← saveOrPreview configured options.dryRun with
      | .error cause =>
          return .failure s!"cannot write {String.ofList document.path.toText}: {cause.message}"
      | .ok committed =>
          return .exited (if committed.success then 0 else 1)
            (saveReport committed document.path options.dryRun) none

def act (document : Document) (options : Options) (width : Nat) : m Outcome := do
  match options.action with
  | .list => return .success (listing document.path document.outline options.verbose)
  | .showBlock name =>
      match document.outline.find? name with
      | none => return .failure (ChangeError.noBlock name).message
      | some block => return .success (blockLines block true)
  | .change change => changeAndSave document change options width

/-- Load a file and carry out the action. The settings count only when a change is written. -/
def loadAndAct (path : Path) (options : Options) (width : Nat) : m Outcome := do
  match ← Document.load { path := path } with
  | .error cause =>
      return .failure s!"cannot read {String.ofList path.toText}: {cause.message}"
  | .ok (_, document) => act document options width

/-- Carry out what options ask for. The log file is opened first, and the file has to be there
before the width of the indentation counts. -/
def runOptions (options : Options) : m Outcome := do
  match ← startLog options.level options.logPath? with
  | .error cause => return .stoppedByFile cause
  | .ok () =>
      let path := Path.ofText options.file
      match ← isFile path with
      | .error cause => return .stoppedByFile cause
      | .ok false => return .failure s!"file does not exist: {String.ofList path.toText}"
      | .ok true =>
          match options.indentWidth with
          | .error cause => return .stoppedByOption cause
          | .ok width => loadAndAct path options width

def run (words : List Text) : m Outcome :=
  match Options.ofWords words with
  | .error stop => return stop.outcome
  | .ok options => runOptions options

end EnumBlocks.CommandLine
