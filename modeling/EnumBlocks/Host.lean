import EnumBlocks.Notice
import EnumBlocks.Path
import EnumBlocks.Text.Utf8

/-!
What the editor asks of the machine that it runs on, and how that can fail.
-/

namespace EnumBlocks

inductive FileError where
  | notFound (path : Path)
  | denied (path : Path)
  | isDirectory (path : Path)
  | notDirectory (path : Path)
  /-- The path, or a name in it, is longer than the machine takes. -/
  | nameTooLong (path : Path)
  /-- The path has a null character in it. -/
  | nullInPath
  /-- The file may not become as long as it would. -/
  | tooLarge
  deriving DecidableEq, Repr

def FileError.message : FileError → String
  | notFound path => s!"[Errno 2] No such file or directory: {showPath path}"
  | denied path => s!"[Errno 13] Permission denied: {showPath path}"
  | isDirectory path => s!"[Errno 21] Is a directory: {showPath path}"
  | notDirectory path => s!"[Errno 20] Not a directory: {showPath path}"
  | nameTooLong path => s!"[Errno 36] File name too long: {showPath path}"
  | nullInPath => "embedded null byte"
  | tooLarge => "[Errno 27] File too large"
where
  /-- A path in a message. -/
  showPath (path : Path) : String := String.ofList (Text.quote path.toText)

/-- Whether a failure shows that nothing is where a path leads. -/
def FileError.showsAbsence : FileError → Bool
  | notFound _ | notDirectory _ | nullInPath => true
  | _ => false

class Host (m : Type → Type) where
  /-- Whether a path leads to a file that is not a directory. It may be impossible to look. -/
  isFile : Path → m (Except FileError Bool)
  readFile : Path → m (Except FileError Bytes)
  writeFile : Path → Bytes → m (Except FileError Unit)
  /-- From now on pass on the notices of a level and above, and add them to a log file too if one is
  given. -/
  startLog : Level → Option Path → m (Except FileError Unit)
  note : Notice → m Unit

export Host (isFile readFile writeFile startLog note)

def noteAll {m : Type → Type} [Monad m] [Host m] (notices : List Notice) : m Unit :=
  notices.forM note

end EnumBlocks
