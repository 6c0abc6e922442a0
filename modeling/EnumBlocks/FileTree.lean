import EnumBlocks.Host

/-!
A tree of files in memory, from its root on, with a working directory somewhere in it. Every file and
directory may be read, written or searched by the one user there is, or not.
-/

namespace EnumBlocks

structure Access where
  read : Bool
  write : Bool
  /-- Whether the contents of a directory can be reached. -/
  search : Bool
  deriving DecidableEq, Repr

def Access.ofDigit (digit : Nat) : Access :=
  ⟨decide (4 ≤ digit % 8), decide (2 ≤ digit % 4), decide (1 ≤ digit % 2)⟩

inductive Node where
  | file (access : Access) (content : Bytes)
  | directory (access : Access)
  /-- A device that takes whatever is written to it and keeps nothing. -/
  | sink
  deriving DecidableEq, Repr

/-- Where a node is: the names on the way from the root. -/
abbrev Location := List Text

/-- Nodes by their location. Of several nodes at one location the first counts. -/
structure FileTree where
  nodes : List (Location × Node)
  /-- Where relative paths begin. -/
  workingDirectory : Location := []
  deriving DecidableEq, Repr

namespace FileTree

def empty : FileTree := { nodes := [([], .directory (.ofDigit 7))] }

def node? (tree : FileTree) (location : Location) : Option Node :=
  tree.nodes.lookup location

/-- Put a node in the place of the one at its location, or after all others. -/
def put (tree : FileTree) (location : Location) (node : Node) : FileTree :=
  { tree with
    nodes :=
      if (tree.node? location).isSome then
        tree.nodes.map fun old => if old.1 = location then (location, node) else old
      else tree.nodes ++ [(location, node)] }

def erase (tree : FileTree) (location : Location) : FileTree :=
  { tree with nodes := tree.nodes.filter (·.1 ≠ location) }

def addDirectory (tree : FileTree) (location : Location) : FileTree :=
  if (tree.node? location).isSome then tree else tree.put location (.directory (.ofDigit 7))

def makeParents (tree : FileTree) (location : Location) : FileTree :=
  (List.range location.length).foldl (fun tree depth => tree.addDirectory (location.take depth))
    tree

def addFile (tree : FileTree) (location : Location) (content : Bytes) : FileTree :=
  (tree.makeParents location).put location (.file (.ofDigit 6) content)

def setAccess (tree : FileTree) (location : Location) (access : Access) : FileTree :=
  match tree.node? location with
  | some (.file _ content) => tree.put location (.file access content)
  | some (.directory _) => tree.put location (.directory access)
  | _ => tree

/-- Where the names of a path begin: at the working directory or at the root. -/
def origin (tree : FileTree) (path : Path) : Location :=
  if path.anchor = .relative then tree.workingDirectory else []

def locate (tree : FileTree) (path : Path) : Location :=
  tree.origin path ++ path.parts

/-- The path from the root to where a path leads when its steps to parent directories are cancelled
without a look at the tree. -/
def absolute (tree : FileTree) (path : Path) : Path :=
  Path.collapse { anchor := .root, parts := tree.locate path }

/-- The files below the working directory, each with the path to it from there. -/
def files (tree : FileTree) : List (Path × Bytes) :=
  tree.nodes.filterMap fun
    | (location, .file _ content) =>
        (tree.workingDirectory.isPrefixOf? location).map fun parts =>
          ({ parts := parts }, content)
    | _ => none

/-- The longest name of a file or a directory, in bytes. -/
def maxNameLength : Nat := 255

/-- The longest path, in bytes. -/
def maxPathLength : Nat := 4095

/-- Follow names from a location. Every location on the way has to be a directory that may be
searched; whether anything is at the end is left open. Nothing is above the root, and a step to its
parent stays there. -/
def walk (tree : FileTree) (path : Path) : Location → List Text → Except FileError Location
  | here, [] => .ok here
  | here, name :: rest =>
      match tree.node? here with
      | none => .error (.notFound path)
      | some (.file ..) | some .sink => .error (.notDirectory path)
      | some (.directory access) =>
          if access.search = false then .error (.denied path)
          else if maxNameLength < (Utf8.encode name).length then .error (.nameTooLong path)
          else if name = Path.parentName then tree.walk path here.dropLast rest
          else tree.walk path (here ++ [name]) rest

def resolve (tree : FileTree) (path : Path) : Except FileError Location :=
  if path.hasNull then .error .nullInPath
  else if maxPathLength < (Utf8.encode path.toText).length then .error (.nameTooLong path)
  else tree.walk path (tree.origin path) path.parts

/-- Whether a path leads to a file. A directory that may not be searched leaves it open, and so does
a name that is too long. -/
def isFile (tree : FileTree) (path : Path) : Except FileError Bool :=
  match tree.resolve path with
  | .error cause => if cause.showsAbsence then .ok false else .error cause
  | .ok location =>
      match tree.node? location with
      | some (.file ..) => .ok true
      | _ => .ok false

def readFile (tree : FileTree) (path : Path) : Except FileError Bytes :=
  match tree.resolve path with
  | .error cause => .error cause
  | .ok location =>
      match tree.node? location with
      | none => .error (.notFound path)
      | some .sink => .ok []
      | some (.directory _) => .error (.isDirectory path)
      | some (.file access content) =>
          if access.read then .ok content else .error (.denied path)

/-- Open a file for writing, which makes it if its directory may be written. -/
def openFile (tree : FileTree) (path : Path) : Except FileError (Location × FileTree) :=
  match tree.resolve path with
  | .error cause => .error cause
  | .ok location =>
      match tree.node? location with
      | some .sink => .ok (location, tree)
      | some (.directory _) => .error (.isDirectory path)
      | some (.file access _) =>
          if access.write then .ok (location, tree) else .error (.denied path)
      | none =>
          match tree.node? location.dropLast with
          | some (.directory access) =>
              if access.write && access.search then
                .ok (location, tree.put location (.file (.ofDigit 6) []))
              else .error (.denied path)
          | some (.file ..) | some .sink => .error (.notDirectory path)
          | none => .error (.notFound path)

def update (tree : FileTree) (location : Location) (change : Bytes → Bytes) : FileTree :=
  match tree.node? location with
  | some (.file access content) => tree.put location (.file access (change content))
  | _ => tree

end FileTree

end EnumBlocks
