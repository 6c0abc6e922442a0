import EnumBlocks.Span
import EnumBlocks.Text.Quoted

/-!
Notices: what reading and saving a document report beside their results.
-/

namespace EnumBlocks

inductive Level where
  | debug
  | info
  | warning
  deriving DecidableEq, Repr

namespace Level

def rank : Level → Nat
  | debug => 0
  | info => 1
  | warning => 2

def label : Level → String
  | debug => "DEBUG"
  | info => "INFO"
  | warning => "WARNING"

end Level

/-- A block that cannot be inserted, since a block of its name is there. -/
structure AlreadyThere where
  name : Text
  span : Span
  deriving DecidableEq, Repr

/-- The message for a block that is already there; lines are counted from one. -/
def AlreadyThere.message (conflict : AlreadyThere) : String :=
  s!"Enum '{String.ofList conflict.name}' already exists at line {conflict.span.head + 1}"

inductive Notice where
  /-- A line declares a name that was declared before. -/
  | redeclared (name : Text) (line : Nat)
  /-- A piece of an entry list on one line is not an entry. -/
  | droppedPiece (piece : Text)
  /-- A line inside a block is not understood. -/
  | ignoredLine (line : Nat) (name text : Text)
  /-- A block is still open where the document ends. -/
  | neverClosed (name : Text)
  | deleted (name : Text)
  /-- A block to remove is not there. -/
  | nothingToDelete (cause : SpanError)
  /-- A block to replace is not there. -/
  | notUpdated (cause : SpanError)
  /-- A block to add is there, and is replaced. -/
  | updatedInstead (cause : AlreadyThere)
  | loaded (count : Nat) (path : Text)
  | saved (path : Text)
  /-- A file needed no writing. -/
  | unchanged
  deriving DecidableEq, Repr

namespace Notice

def level : Notice → Level
  | redeclared .. | neverClosed .. | nothingToDelete .. | notUpdated .. | updatedInstead .. =>
      .warning
  | droppedPiece .. | ignoredLine .. => .debug
  | deleted .. | loaded .. | saved .. | unchanged => .info

/-- The part of the program that a notice comes from, as log files name it. -/
def origin : Notice → String
  | redeclared .. | neverClosed .. | droppedPiece .. | ignoredLine .. =>
      "enum_editor.core.scanner"
  | _ => "enum_editor.core.session"

def message : Notice → String
  | redeclared name line =>
      s!"Enum '{String.ofList name}' declared again at line {line}, keeping the later one"
  | droppedPiece piece => s!"Dropped inline fragment: {String.ofList (Text.quote piece)}"
  | ignoredLine line name text =>
      s!"Line {line} in enum '{String.ofList name}' ignored: {String.ofList (Text.quote text)}"
  | neverClosed name => s!"Enum '{String.ofList name}' is not closed before end of file"
  | deleted name => s!"Enum '{String.ofList name}' removed from script content."
  | nothingToDelete cause =>
      s!"{cause.message}; it might have been already removed or never existed."
  | notUpdated cause => s!"{cause.message}; update skipped."
  | updatedInstead cause => s!"{cause.message}; updating it instead of adding a duplicate."
  | loaded count path => s!"Loaded {count} enums from {String.ofList path}"
  | saved path => s!"All changes saved to script: {String.ofList path}"
  | unchanged => "No changes detected to save."

def consoleLine (notice : Notice) : String :=
  s!"{notice.level.label}: {notice.message}\n"

def logLine (notice : Notice) (stamp : String) : String :=
  s!"{stamp} - {notice.origin} - {notice.level.label} - {notice.message}\n"

end Notice

end EnumBlocks
