import EnumBlocks.Commit
import EnumBlocks.Path

/-!
What the command line prints about blocks and about saving, line by line, and the numbered listing
of lines.
-/

namespace EnumBlocks.Text

def signedDecimal : Int → Text
  | .ofNat n => decimal n
  | .negSucc n => '-' :: decimal (n + 1)

/-- One line of a listing: its number, right-aligned, a bar and the line. -/
def numberedLine (width : Nat) (number : Int) (line : Text) : Text :=
  padLeft width (signedDecimal number) ++ [' ', '|', ' '] ++ line

/-- Lines with their numbers from `start` on. The column of numbers is as wide as the last one. -/
def numbered (lines : List Text) (start : Int) : Text :=
  let width := (signedDecimal (start + lines.length - 1)).length
  joinWith ['\n'] (lines.mapIdx fun index line => numberedLine width (start + index) line)

end EnumBlocks.Text

namespace EnumBlocks.CommandLine

def entryLine (entry : Entry) : String :=
  let value := if entry.value = [] then "" else s!" = {String.ofList entry.value}"
  let comment := if entry.comment = [] then "" else s!"  //{String.ofList entry.comment}"
  s!"      {String.ofList entry.name}{value}{comment}"

def blockLines (block : Block) (detailed : Bool) : List String :=
  s!"  • enum {String.ofList block.name} ({block.entries.length})" ::
    if detailed then block.entries.map entryLine else []

def listing (path : Path) (outline : Outline) (detailed : Bool) : List String :=
  s!"Enums in {String.ofList path.toText}: {outline.size}" ::
    outline.blocks.flatMap (blockLines · detailed)

def nameLine (label : String) (names : List Text) : List String :=
  let joined := String.ofList (Text.joinWith [',', ' '] names)
  if names = [] then [] else [s!"   {label}: {joined}"]

/-- What is said about the file itself. A dry run shows the lines that it would have. -/
def storedLines (commit : Commit) (path : Path) (dryRun : Bool) : List String :=
  if dryRun then
    (if commit.changed then [String.ofList (Text.numbered commit.lines 1)] else []) ++
      ["", "Dry run: file not written"]
  else if commit.changed then ["", s!"Saved: {String.ofList path.toText}"]
  else ["", "No changes detected to save"]

def saveReport (commit : Commit) (path : Path) (dryRun : Bool) : List String :=
  storedLines commit path dryRun ++
    nameLine "Deleted" commit.deleted ++
    nameLine "Updated" commit.updated ++
    nameLine "Added" commit.inserted ++
    nameLine "Not found" commit.missing ++
    commit.errors.map fun cause => s!"   Error: {cause.message}"

end EnumBlocks.CommandLine
