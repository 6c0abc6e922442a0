import EnumBlocks.CommandLine.Argument

/-!
What a command line asks for: the file, one action, and the settings.

The rules are those of argparse 3.11.8. Later releases differ in three corners. To them the separator
is a value like any other when it is attached to an option; text behind the letter of an option
without value is an unknown option where it begins with no letter of one; and an equals sign behind
several letters stands in front of the value and is no part of it.
-/

namespace EnumBlocks.CommandLine

inductive Change where
  | create (name : Text)
  | delete (name : Text)
  | set (name : Text)
  | append (name : Text)
  deriving DecidableEq, Repr

inductive Action where
  | list
  | showBlock (name : Text)
  | change (change : Change)
  deriving DecidableEq, Repr

/-- The action that an option chooses. An option with an empty name or none chooses nothing, and the
blocks are listed. -/
def Action.ofFlag (flag : Flag) (name : Text) : Action :=
  if name = [] then .list
  else
    match flag with
    | .showBlock => .showBlock name
    | .create => .change (.create name)
    | .delete => .change (.delete name)
    | .set => .change (.set name)
    | .append => .change (.append name)
    | _ => .list

structure Details where
  /-- The entries for a change, as they are written. One may have been left out. -/
  entries : List (Option Text) := []
  dryRun : Bool := false
  legacyBraces : Bool := false
  /-- Whether blocks that do not change are left as they are. -/
  onlyChanged : Bool := false
  /-- The width of the indentation, unless it has been left out. -/
  indent : Option Int := some 4
  logFile : Option Text := none
  verbose : Bool := false
  deriving DecidableEq, Repr

structure Options extends Details where
  file : Text
  action : Action
  deriving DecidableEq, Repr

inductive Stop where
  | help
  | wrong (error : UsageError)
  deriving DecidableEq, Repr

inductive OptionError where
  | noEntry
  | noIndent
  | indentTooWide
  /-- There is no memory for an indentation of the width. -/
  | noMemory
  deriving DecidableEq, Repr

def OptionError.message : OptionError → String
  | noEntry => "'list' object has no attribute 'strip'"
  | noIndent => "can't multiply sequence by non-int of type 'list'"
  | indentTooWide => "cannot fit 'int' into an index-sized integer"
  | noMemory => ""

structure Draft extends Details where
  file : Option Text := none
  /-- The option that chose the action, with its value. -/
  chosen : Option (Flag × Option Text) := none
  /-- Words that no one asked for. -/
  extra : List Text := []
  deriving DecidableEq, Repr

structure Expansion where
  /-- Options that are complete, with their values. -/
  given : List (Flag × Option Text) := []
  /-- An option whose value is the next word. -/
  awaiting : Option Flag := none
  deriving DecidableEq, Repr

/-- The value that a text is. The separator is no value: an option that has it attached goes without
one. -/
def valueOf? (text : Text) : Option Text :=
  if text = ['-', '-'] then none else some text

def expandBare (flag : Flag) : Expansion :=
  if flag.takesValue then { awaiting := some flag } else { given := [(flag, none)] }

def expandValue (flag : Flag) (value : Text) : Except UsageError Expansion :=
  if flag.takesValue then .ok { given := [(flag, valueOf? value)] }
  else .error (.unexpectedValue flag value)

/-- An option with text joined to its letter. The text is its value or, if it takes none, further
letters of options. -/
def expandJoined (flag : Flag) : Text → Except UsageError Expansion
  | [] => expandValue flag []
  | letter :: rest =>
      match flag.takesValue, Flag.ofLetter? letter with
      | false, some next =>
          let expansion := if rest = [] then .ok (expandBare next) else expandJoined next rest
          expansion.map fun found => { found with given := (flag, none) :: found.given }
      | _, _ => expandValue flag (letter :: rest)

def expand (flag : Flag) : Attachment → Except UsageError Expansion
  | .nothing => .ok (expandBare flag)
  | .joined text => expandJoined flag text
  | .equals value => expandValue flag value

namespace Draft

/-- Take in an option that chooses the action. The same option may be repeated, and its last value
counts. -/
def choose (draft : Draft) (flag : Flag) (value : Option Text) : Except Stop Draft :=
  match draft.chosen with
  | none => .ok { draft with chosen := some (flag, value) }
  | some (other, _) =>
      if other = flag then .ok { draft with chosen := some (flag, value) }
      else .error (.wrong (.notAllowedWith flag other))

def give (draft : Draft) (flag : Flag) (value : Option Text) : Except Stop Draft :=
  match flag with
  | .help => .error .help
  | .list | .showBlock | .create | .delete | .set | .append => draft.choose flag value
  | .entry => .ok { draft with entries := draft.entries ++ [value] }
  | .dryRun => .ok { draft with dryRun := true }
  | .legacyBraces => .ok { draft with legacyBraces := true }
  | .onlyChanged => .ok { draft with onlyChanged := true }
  | .indent =>
      match value with
      | none => .ok { draft with indent := none }
      | some text =>
          match Text.integer? text with
          | some width => .ok { draft with indent := some width }
          | none => .error (.wrong (.notANumber flag text))
  | .logFile => .ok { draft with logFile := value }
  | .verbose => .ok { draft with verbose := true }

def giveAll (draft : Draft) : List (Flag × Option Text) → Except Stop Draft
  | [] => .ok draft
  | (flag, value) :: rest =>
      match draft.give flag value with
      | .error stop => .error stop
      | .ok next => next.giveAll rest

def addExtra (draft : Draft) (words : List Text) : Draft :=
  { draft with extra := draft.extra ++ words }

/-- Take in a word that is not an option: the first one is the file, every other one is extra. -/
def addOperand (draft : Draft) (text : Text) : Draft :=
  if draft.file.isNone then { draft with file := some text } else draft.addExtra [text]

/-- Take in the words from the separator on. The separator is used up by the file, if that comes
right after it. -/
def readOperands (draft : Draft) (words : List Text) : Draft :=
  match draft.file, words with
  | none, text :: rest => ({ draft with file := some text }).addExtra rest
  | _, _ => draft.addExtra (['-', '-'] :: words)

def operandTexts (arguments : List Argument) : List Text :=
  arguments.filterMap fun
    | .operand text => some text
    | _ => none

/-- Read the words of a command line one after the other. The separator is used up by the file, too,
if that comes right before it. -/
def read (draft : Draft) : List Argument → Except Stop Draft
  | [] => .ok draft
  | .operand text :: rest =>
      match draft.file, rest with
      | none, .separator :: others =>
          .ok (({ draft with file := some text }).addExtra (operandTexts others))
      | _, _ => (draft.addOperand text).read rest
  | .separator :: rest => .ok (draft.readOperands (operandTexts rest))
  | .unknown text :: rest => (draft.addExtra [text]).read rest
  | .option flag attachment :: rest =>
      match expand flag attachment with
      | .error wrong => .error (.wrong wrong)
      | .ok { given, awaiting := none } =>
          match draft.giveAll given with
          | .error stop => .error stop
          | .ok next => next.read rest
      | .ok { given, awaiting := some last } =>
          match rest with
          | .operand text :: rest =>
              match draft.giveAll (given ++ [(last, some text)]) with
              | .error stop => .error stop
              | .ok next => next.read rest
          | _ => .error (.wrong (.expectsValue last))

/-- The options, if there is a file and nothing is extra. -/
def finish (draft : Draft) : Except Stop Options :=
  match draft.file with
  | none => .error (.wrong .missingFile)
  | some file =>
      if draft.extra = [] then
        let action :=
          match draft.chosen with
          | none => Action.list
          | some (flag, name) => Action.ofFlag flag (name.getD [])
        .ok { toDetails := draft.toDetails, file := file, action := action }
      else .error (.wrong (.unrecognized draft.extra))

end Draft

def Options.ofWords (words : List Text) : Except Stop Options :=
  match readWords words with
  | .error wrong => .error (.wrong wrong)
  | .ok arguments =>
      match Draft.read {} arguments with
      | .error stop => .error stop
      | .ok draft => draft.finish

end EnumBlocks.CommandLine
