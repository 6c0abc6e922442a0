import EnumBlocks.CommandLine.Run
import Std.Time.Format
import Std.Time.Zoned

/-!
The program: the command line carried out on the files of the machine it runs on.
-/

namespace EnumBlocks

/-- Where notices go: to the console, and to a log file if there is one. -/
structure Console where
  level : Level := .warning
  logFile : Option IO.FS.Handle := none

def FileError.ofNumber? (path : Path) (number : UInt32) : Option FileError :=
  if number = 2 then some (.notFound path)
  else if number = 13 then some (.denied path)
  else if number = 20 then some (.notDirectory path)
  else if number = 21 then some (.isDirectory path)
  else if number = 27 then some .tooLarge
  else if number = 36 then some (.nameTooLong path)
  else none

def FileError.ofError? (path : Path) : IO.Error → Option FileError
  | .noFileOrDirectory _ number _ | .permissionDenied _ number _ | .inappropriateType _ number _
  | .resourceExhausted _ number _ | .noSuchThing _ number _ | .invalidArgument _ number _
  | .otherError number _ => ofNumber? path number
  | _ => none

def onFile {α : Type} (path : Path) (action : String → IO α) : IO (Except FileError α) := do
  if path.hasNull then return .error .nullInPath
  match ← (action (String.ofList path.toText)).toBaseIO with
  | .ok value => return .ok value
  | .error error =>
      match FileError.ofError? path error with
      | some cause => return .error cause
      | none => throw error

def isRegularFile (name : String) : IO Bool := do
  let place ← IO.FS.realPath name
  return (← place.metadata).type == .file

def timeStamp : IO String := do
  return (← Std.Time.PlainDateTime.now).format "uuuu-MM-dd HH:mm:ss"

instance : Host (StateT Console IO) where
  isFile path := do
    match ← onFile path isRegularFile with
    | .ok answer => return .ok answer
    | .error cause => return if cause.showsAbsence then .ok false else .error cause
  readFile path := do
    return (← onFile path fun name => IO.FS.readBinFile name).map fun bytes => bytes.data.toList
  writeFile path content := do
    onFile path fun name => IO.FS.writeBinFile name ⟨content.toArray⟩
  startLog level
    | none => do
        set ({ level := level } : Console)
        return .ok ()
    | some path => do
        match ← onFile path fun name => IO.FS.Handle.mk name .append with
        | .error cause => return .error cause
        | .ok handle =>
            set ({ level := level, logFile := some handle } : Console)
            return .ok ()
  note notice := do
    let console ← get
    if console.level.rank ≤ notice.level.rank then
      IO.eprint notice.consoleLine
      match console.logFile with
      | none => pure ()
      | some handle =>
          handle.putStr (notice.logLine (← timeStamp))
          handle.flush

/-- Print how a run ended; the result is the exit status. -/
def CommandLine.Outcome.finish : CommandLine.Outcome → IO UInt32
  | .exited status output complaint => do
      output.forM IO.println
      match complaint with
      | none => pure ()
      | some message =>
          CommandLine.usageLines.forM IO.eprintln
          IO.eprintln message
      return UInt32.ofNat status
  | .stoppedByFile cause => do
      IO.eprintln cause.message
      return 1
  | .stoppedByOption cause => do
      IO.eprintln cause.message
      return 1

end EnumBlocks

/-- Edit the enums of a file as the command line asks. -/
def main (words : List String) : IO UInt32 := do
  let carriedOut : StateT EnumBlocks.Console IO EnumBlocks.CommandLine.Outcome :=
    EnumBlocks.CommandLine.run (words.map String.toList)
  let (outcome, _) ← carriedOut.run {}
  outcome.finish
