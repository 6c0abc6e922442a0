import EnumBlocks.FileTree

/-!
The surroundings of a working directory: the directories that a system comes with, a few of its
files, and the device that keeps nothing.
-/

namespace EnumBlocks.FileTree

/-- The location that names with slashes between them spell out, from the root on. -/
def systemLocation (names : String) : Location :=
  (Path.ofText names.toList).parts

def systemDirectories : List Location :=
  ["bin", "boot", "dev", "dev/shm", "etc", "home", "lib", "lib64", "media", "mnt", "opt", "proc",
   "root", "run", "sbin", "srv", "sys", "tmp", "usr", "usr/bin", "usr/lib", "usr/local",
   "usr/local/bin", "usr/local/lib", "usr/sbin", "usr/share", "var", "var/cache", "var/lib",
   "var/log", "var/tmp"].map systemLocation

/-- Files that a system comes with. What is in them is of no concern here, and they are empty. -/
def systemFiles : List Location :=
  ["etc/passwd", "etc/group", "etc/hosts", "etc/hostname"].map systemLocation

def nullDevice : Location := systemLocation "dev/null"

/-- An empty working directory among the directories of a system. -/
def system : FileTree :=
  let directories := systemDirectories.foldl addDirectory empty
  let files := systemFiles.foldl (addFile · · []) directories
  let home := systemLocation "tmp/enum-blocks-work"
  { (files.put nullDevice .sink).addDirectory home with workingDirectory := home }

end EnumBlocks.FileTree
