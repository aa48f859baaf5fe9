import FlowNest.Snapshot

/-!
# FlowNest — a folder in memory

A storage without a disk: a tree of folders and files as a value. A path leads
from the folder itself, by names between slashes. A file can be written where no
folder stands and no file is on the way to it. As on a disk, names and paths are
bounded in length, and no name holds a null character.
-/

namespace FlowNest

/-- Files and folders, by their paths from here. -/
structure Folder where
  files : List (List String × List UInt8)
  folders : List (List String)

namespace Folder

def empty : Folder := ⟨[], []⟩

/-- The most bytes in a name. -/
def longestName : Nat := 255

/-- The most bytes in a path. -/
def longestPath : Nat := 4095

/-- Can a file or folder have the name? -/
def nameable (name : String) : Bool :=
  name.utf8ByteSize ≤ longestName && !name.contains '\x00'

/-- Is there a folder at the path? -/
def holds (f : Folder) (path : List String) : Bool :=
  path.isEmpty || path ∈ f.folders

/-- Where steps lead from a folder: a name goes down, two dots go back, and a dot
or nothing at all stays. Every folder on the way has to be there. -/
def follow? (f : Folder) (way : List String) : List String → Option (List String)
  | [] => some way
  | ".." :: rest => f.follow? way.dropLast rest
  | "" :: rest | "." :: rest => f.follow? way rest
  | name :: rest => if f.holds (way ++ [name]) then f.follow? (way ++ [name]) rest else none

/-- Where steps lead when the folders on the way are created, with the folder
after that; no file may stand there, and each name has to be possible. -/
def reach? (f : Folder) (way : List String) : List String → Option (Folder × List String)
  | [] => some (f, way)
  | ".." :: rest => f.reach? way.dropLast rest
  | "" :: rest | "." :: rest => f.reach? way rest
  | name :: rest =>
    let way := way ++ [name]
    -- a file cannot be entered
    if !nameable name || (f.files.lookup way).isSome then none
    else reach? (if f.holds way then f else { f with folders := way :: f.folders }) way rest

/-- The steps of a path to a file, and the name of the file, if it can be one. -/
def split? (path : String) : Option (List String × String) :=
  let steps := path.splitOn "/"
  match steps.getLast? with
  | none | some "" | some "." | some ".." => none
  | some name =>
    if nameable name && path.utf8ByteSize ≤ longestPath then some (steps.dropLast, name) else none

/-- The content of a file. -/
def read? (f : Folder) (path : String) : Option (List UInt8) := do
  let (steps, name) ← split? path
  let way ← f.follow? [] steps
  f.files.lookup (way ++ [name])

/-- Writes a file. -/
def write? (f : Folder) (path : String) (bytes : List UInt8) : Option Folder := do
  let (steps, name) ← split? path
  let (f, way) ← f.reach? [] steps
  let file := way ++ [name]
  if f.holds file then none
  else some { f with files := (file, bytes) :: f.files.filter (·.1 ≠ file) }

instance : Storage (StateM Folder) where
  read path := do return (← get).read? path
  write path bytes := do
    match (← get).write? path bytes with
    | some f => set f; return true
    | none => return false

end Folder

end FlowNest
