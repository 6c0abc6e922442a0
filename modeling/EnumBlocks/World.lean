import EnumBlocks.FileTree

/-!
A machine in memory: a tree of files, a limit on their length, and what was reported.
-/

namespace EnumBlocks

structure World where
  tree : FileTree
  /-- The number of bytes that no file may exceed by growing. -/
  limit : Option Nat := none
  /-- The time that log files show. -/
  stamp : String := ""
  /-- The least level of the notices that are passed on. -/
  level : Level := .debug
  logFile : Option Location := none
  noted : List Notice := []
  deriving DecidableEq, Repr

namespace World

/-- As much of some contents as the limit allows. -/
def cut (world : World) (content : Bytes) : Bytes :=
  match world.limit with
  | none => content
  | some limit => content.take limit

def fits (world : World) (content : Bytes) : Bool :=
  world.limit.all fun limit => decide (content.length ≤ limit)

/-- Replace the contents of a file. Contents beyond the limit are written up to it and refused. The
limit is one of files: a device takes all that is written to it. -/
def write (world : World) (path : Path) (content : Bytes) : Except FileError Unit × World :=
  match world.tree.openFile path with
  | .error cause => (.error cause, world)
  | .ok (location, tree) =>
      (if tree.node? location = some .sink ∨ world.fits content = true then .ok ()
        else .error .tooLarge,
        { world with tree := tree.update location fun _ => world.cut content })

/-- Pass on a notice: to whoever listens and to the end of the log file. -/
def report (world : World) (notice : Notice) : World :=
  if notice.level.rank < world.level.rank then world
  else
    let heard := { world with noted := world.noted ++ [notice] }
    match world.logFile with
    | none => heard
    | some location =>
        let line := Utf8.encode (notice.logLine world.stamp).toList
        { heard with
          tree := world.tree.update location fun content =>
            content ++ line.take ((world.cut (content ++ line)).length - content.length) }

/-- Set the least level and the log file, which is made if it is not there. Its path is followed from
the root. -/
def listen (world : World) (level : Level) : Option Path → Except FileError Unit × World
  | none => (.ok (), { world with level := level, logFile := none })
  | some path =>
      match world.tree.openFile (world.tree.absolute path) with
      | .error cause => (.error cause, world)
      | .ok (location, tree) =>
          (.ok (), { world with level := level, tree := tree, logFile := some location })

end World

instance : Host (StateM World) where
  isFile path := fun world => (world.tree.isFile path, world)
  readFile path := fun world => (world.tree.readFile path, world)
  writeFile path content := fun world => world.write path content
  startLog level path := fun world => world.listen level path
  note notice := fun world => ((), world.report notice)

end EnumBlocks
