import EnumBlocks.CommandLine.Flag
import EnumBlocks.Text.Numeral
import EnumBlocks.Text.Quoted

/-!
The words of a command line, each taken for itself: operands, options with or without something
attached to them, and the separator after which every word is an operand. The rules are those of
argparse 3.11.8.
-/

namespace EnumBlocks.CommandLine

inductive UsageError where
  /-- A long option is abbreviated so that several are meant. -/
  | ambiguous (word : Text) (candidates : List Flag)
  | expectsValue (flag : Flag)
  | unexpectedValue (flag : Flag) (value : Text)
  | notAllowedWith (flag other : Flag)
  | notANumber (flag : Flag) (value : Text)
  | missingFile
  | unrecognized (words : List Text)
  deriving DecidableEq, Repr

def UsageError.message : UsageError → String
  | ambiguous word candidates =>
      let spelled := Text.joinWith [',', ' '] (candidates.map Flag.longSpelling)
      s!"ambiguous option: {String.ofList word} could match {String.ofList spelled}"
  | expectsValue flag => s!"argument {String.ofList flag.label}: expected one argument"
  | unexpectedValue flag value =>
      let quoted := String.ofList (Text.quote value)
      s!"argument {String.ofList flag.label}: ignored explicit argument {quoted}"
  | notAllowedWith flag other =>
      let label := String.ofList other.label
      s!"argument {String.ofList flag.label}: not allowed with argument {label}"
  | notANumber flag value =>
      let quoted := String.ofList (Text.quote value)
      s!"argument {String.ofList flag.label}: invalid int value: {quoted}"
  | missingFile => "the following arguments are required: file"
  | unrecognized words =>
      let joined := String.ofList (Text.joinWith [' '] words)
      s!"unrecognized arguments: {joined}"

inductive Attachment where
  | nothing
  /-- Text after the letter of an option, with or without an equals sign between them. -/
  | joined (text : Text)
  /-- Text after an equals sign that follows a long name. -/
  | equals (text : Text)
  deriving DecidableEq, Repr

inductive Argument where
  | operand (text : Text)
  | separator
  | option (flag : Flag) (attachment : Attachment)
  /-- A word that looks like an option and is none. -/
  | unknown (text : Text)
  deriving DecidableEq, Repr

/-- Whether the part after a sign is a decimal number. One line feed is tolerated at the end. -/
def isUnsignedNumber (text : Text) : Bool :=
  let digits := if text.getLast? = some '\n' then text.dropLast else text
  match digits.dropWhile Text.isDigit with
  | [] => !digits.isEmpty
  | mark :: fraction => mark == '.' && !fraction.isEmpty && fraction.all Text.isDigit

/-- Whether a word is a negative number, which is an operand in spite of its sign. -/
def isNegativeNumber : Text → Bool
  | '-' :: rest => isUnsignedNumber rest
  | _ => false

/-- The options that a word may mean which spells none in full. Long options may be abbreviated; an
option with a letter may have text joined to it. -/
def candidates (word : Text) : List (Flag × Attachment) :=
  match word with
  | '-' :: '-' :: _ =>
      let attachment :=
        if '=' ∈ word then Attachment.equals (Text.afterFirst '=' word) else .nothing
      (Flag.all.filter fun flag => (Text.beforeFirst '=' word).isPrefixOf flag.longSpelling).map
        (·, attachment)
  | '-' :: letter :: rest => (Flag.ofLetter? letter).toList.map (·, .joined rest)
  | _ => []

/-- The option that a word spells in full before an equals sign. -/
def beforeEquals? (word : Text) : Option Argument :=
  if '=' ∈ word then
    let spelling := Text.beforeFirst '=' word
    let text := Text.afterFirst '=' word
    (Flag.ofSpelling? spelling).map fun flag =>
      .option flag (if spelling = flag.longSpelling then .equals text else .joined text)
  else none

/-- Read a word that begins with a dash and spells no option in full. -/
def readAbbreviated (word : Text) : Except UsageError Argument :=
  match candidates word with
  | [(flag, attachment)] => .ok (.option flag attachment)
  | [] => .ok (if isNegativeNumber word || ' ' ∈ word then .operand word else .unknown word)
  | several => .error (.ambiguous word (several.map Prod.fst))

def readWord (word : Text) : Except UsageError Argument :=
  if word.head? ≠ some '-' ∨ word = ['-'] then .ok (.operand word)
  else
    match Flag.ofSpelling? word with
    | some flag => .ok (.option flag .nothing)
    | none =>
        match beforeEquals? word with
        | some argument => .ok argument
        | none => readAbbreviated word

def readWords : List Text → Except UsageError (List Argument)
  | [] => .ok []
  | word :: rest =>
      if word = ['-', '-'] then .ok (.separator :: rest.map .operand)
      else
        match readWord word with
        | .error wrong => .error wrong
        | .ok argument => (readWords rest).map (argument :: ·)

end EnumBlocks.CommandLine
