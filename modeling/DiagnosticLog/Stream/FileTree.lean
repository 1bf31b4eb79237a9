import DiagnosticLog.Stream.Transcript

/-!
# Files and their creation

A tree of directories, regular files and devices, and the rules by which a path is resolved when a
file is to be created or truncated there.  Absolute paths begin at the root directory, all others
at the working directory.
-/

namespace DiagnosticLog

/-- Where a directory or file is: the names on the way from the root directory. -/
abbrev Location : Type := List Bytes

inductive Device where
  /-- It takes everything and keeps nothing. -/
  | null
  /-- It refuses every write. -/
  | full
  deriving DecidableEq, Repr

structure FileTree where
  working : Location
  directories : List Location
  files : List (Location × Transcript)
  devices : List (Location × Device)
  /-- The directories below which, and the files to which, nothing may be written. -/
  readOnly : List Location
  deriving DecidableEq, Repr

/-- Why a file could not be created. -/
inductive OpenFailure where
  /-- The path is empty, or a directory on the way is missing. -/
  | notFound
  /-- The path names a directory, or ends in a slash. -/
  | isADirectory
  /-- A file stands where a directory has to be. -/
  | notADirectory
  /-- The path holds a zero byte. -/
  | invalidInput
  /-- The path or one of its names is too long. -/
  | invalidFilename
  | permissionDenied
  deriving DecidableEq, Repr

inductive Target where
  | regular (location : Location)
  | device (d : Device)
  deriving DecidableEq, Repr

def Target.accepts : Target → Bool
  | device .full => false
  | _ => true

namespace FileTree

/-- The tree of some directories and of files with the given contents, in which everything may be
written. -/
def ofContents (working : Location) (directories : List Location)
    (contents : List (Location × Bytes)) (devices : List (Location × Device)) : FileTree :=
  ⟨working, directories, contents.map fun entry => (entry.1, Transcript.ofText entry.2), devices,
    []⟩

def empty : FileTree :=
  ⟨[], [], [], [], []⟩

def contents (tree : FileTree) : List (Location × Bytes) :=
  tree.files.map fun entry => (entry.1, entry.2.text)

def isDirectory (tree : FileTree) (location : Location) : Bool :=
  (tree.working :: tree.directories).any location.isPrefixOf

def content? (tree : FileTree) (location : Location) : Option Transcript :=
  tree.files.lookup location

def store (tree : FileTree) (location : Location) (content : Transcript) : FileTree :=
  if (tree.content? location).isSome then
    { tree with
      files := tree.files.map fun entry =>
        if entry.1 = location then (location, content) else entry }
  else
    { tree with files := tree.files ++ [(location, content)] }

/-- The tree in which the target has been created, or truncated if it was there. -/
def emptied (tree : FileTree) : Target → FileTree
  | .regular location => tree.store location Transcript.empty
  | .device _ => tree

def isReadOnly (tree : FileTree) (location : Location) : Bool :=
  tree.readOnly.any fun root => root.isPrefixOf location

def append (tree : FileTree) (location : Location) (bytes : Bytes) : FileTree :=
  tree.store location (((tree.content? location).getD Transcript.empty).add bytes)

/-- What the target keeps of the bytes it took. -/
def deliver (tree : FileTree) (target : Target) (bytes : Bytes) : FileTree :=
  match target with
  | .regular location => tree.append location bytes
  | .device _ => tree

/-! ## Paths -/

def slash : UInt8 := 47

def parts : Bytes → List Bytes
  | [] => [[]]
  | b :: rest =>
      if b = slash then
        [] :: parts rest
      else
        match parts rest with
        | [] => [[b]]
        | part :: more => (b :: part) :: more

/-- The names in a path; slashes next to each other count as one. -/
def names (path : Bytes) : List Bytes :=
  (parts path).filter fun part => !part.isEmpty

def maxName : Nat := 255

def maxPath : Nat := 4095

/-- What a name means in a directory. -/
inductive Entry where
  | directory (location : Location)
  | file (target : Target)
  /-- Nothing yet, but a file can be made there. -/
  | vacant (location : Location)
  deriving DecidableEq, Repr

def itself : Bytes := Bytes.ofString "."

def above : Bytes := Bytes.ofString ".."

def entry (tree : FileTree) (place : Location) (name : Bytes) : Entry :=
  let there := place ++ [name]
  if tree.isDirectory there then .directory there
  else
    match tree.devices.lookup there with
    | some d => .file (.device d)
    | none => if (tree.content? there).isSome then .file (.regular there) else .vacant there

def through (tree : FileTree) (place : Location) (name : Bytes) : Except OpenFailure Location :=
  if name = itself then .ok place
  else if name = above then .ok place.dropLast
  else if name.length > maxName then .error .invalidFilename
  else
    match tree.entry place name with
    | .directory next => .ok next
    | .file _ => .error .notADirectory
    | .vacant _ => .error .notFound

def create (tree : FileTree) (location : Location) (target : Target) :
    Except OpenFailure (Target × FileTree) :=
  if tree.isReadOnly location then .error .permissionDenied
  else .ok (target, tree.emptied target)

/-- Open the last name of a path: a regular file is created or truncated. -/
def openLast (tree : FileTree) (place : Location) (name : Bytes) (slashed : Bool) :
    Except OpenFailure (Target × FileTree) :=
  if name = itself ∨ name = above ∨ slashed then .error .isADirectory
  else if name.length > maxName then .error .invalidFilename
  else
    match tree.entry place name with
    | .directory _ => .error .isADirectory
    | .file target => tree.create (place ++ [name]) target
    | .vacant location => tree.create location (.regular location)

def openNames (tree : FileTree) (slashed : Bool) :
    Location → List Bytes → Except OpenFailure (Target × FileTree)
  | _, [] => .error .isADirectory
  | place, [name] => tree.openLast place name slashed
  | place, name :: next :: more => do
      openNames tree slashed (← tree.through place name) (next :: more)

def openPath (tree : FileTree) (path : Bytes) : Except OpenFailure (Target × FileTree) :=
  if 0 ∈ path then .error .invalidInput
  else if path.isEmpty then .error .notFound
  else if path.length > maxPath then .error .invalidFilename
  else
    let start := if path.head? = some slash then [] else tree.working
    tree.openNames (path.getLast? = some slash) start (names path)

end FileTree

end DiagnosticLog
