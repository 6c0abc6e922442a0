import EnumBlocks.Text.Basic

/-!
The options of the command line and how they are spelled.
-/

namespace EnumBlocks.CommandLine

inductive Flag where
  | help
  | list
  | showBlock
  | create
  | delete
  | set
  | append
  | entry
  | dryRun
  | legacyBraces
  | onlyChanged
  | indent
  | logFile
  | verbose
  deriving DecidableEq, Repr

namespace Flag

/-- The options of which one chooses what is to be done. -/
def choices : List Flag :=
  [list, showBlock, create, delete, set, append]

/-- The options that say how it is to be done. -/
def details : List Flag :=
  [entry, dryRun, legacyBraces, onlyChanged, indent, logFile, verbose]

/-- All options, in the order in which they are listed. -/
def all : List Flag :=
  help :: choices ++ details

def longName : Flag → Text
  | help => ['h', 'e', 'l', 'p']
  | list => ['l', 'i', 's', 't']
  | showBlock => ['s', 'h', 'o', 'w']
  | create => ['c', 'r', 'e', 'a', 't', 'e']
  | delete => ['d', 'e', 'l', 'e', 't', 'e']
  | set => ['s', 'e', 't']
  | append => ['a', 'p', 'p', 'e', 'n', 'd']
  | entry => ['e', 'n', 't', 'r', 'y']
  | dryRun => ['d', 'r', 'y', '-', 'r', 'u', 'n']
  | legacyBraces => ['l', 'e', 'g', 'a', 'c', 'y', '-', 'b', 'r', 'a', 'c', 'e', 's']
  | onlyChanged => ['o', 'n', 'l', 'y', '-', 'c', 'h', 'a', 'n', 'g', 'e', 'd']
  | indent => ['i', 'n', 'd', 'e', 'n', 't']
  | logFile => ['l', 'o', 'g', '-', 'f', 'i', 'l', 'e']
  | verbose => ['v', 'e', 'r', 'b', 'o', 's', 'e']

def letter? : Flag → Option Char
  | help => some 'h'
  | list => some 'l'
  | entry => some 'e'
  | verbose => some 'v'
  | _ => none

def ofLetter? (letter : Char) : Option Flag :=
  all.find? (·.letter? == some letter)

def longSpelling (flag : Flag) : Text :=
  '-' :: '-' :: flag.longName

def spellings (flag : Flag) : List Text :=
  flag.letter?.toList.map (['-', ·]) ++ [flag.longSpelling]

def ofSpelling? (spelling : Text) : Option Flag :=
  all.find? (decide <| spelling ∈ ·.spellings)

/-- What stands for the value of an option, if the option comes with one. -/
def placeholder? : Flag → Option Text
  | help | list | dryRun | legacyBraces | onlyChanged | verbose => none
  | showBlock | create | delete | set | append => some ['N', 'A', 'M', 'E']
  | entry => some ['S', 'P', 'E', 'C']
  | indent => some ['I', 'N', 'D', 'E', 'N', 'T']
  | logFile => some ['P', 'A', 'T', 'H']

def takesValue (flag : Flag) : Bool :=
  flag.placeholder?.isSome

def label (flag : Flag) : Text :=
  Text.joinWith ['/'] flag.spellings

end Flag

end EnumBlocks.CommandLine
