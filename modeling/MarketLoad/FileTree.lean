import MarketLoad.Text.Utf8

/-! # Files

The places that settings are read from and exports are written to. A path is walked one name
at a time from the root or from the home directory: `.` stays, `..` goes up, and any other
name must stand in the directory reached so far (`FileTree.walk`). Writing makes the last
name of a path if it is not there yet, but no directory on the way to it. -/

namespace MarketLoad

/-- Why a path leads to no text, or why nothing can be written there. -/
inductive FileTrouble
  | missing
  | directory
  | notDirectory
  | nameTooLong
  | noRoom
  /-- A name with the null character. -/
  | nullInName
  | notText
deriving DecidableEq, Repr

namespace FileTrouble

def message : FileTrouble → String
  | missing => "No such file or directory (os error 2)"
  | directory => "Is a directory (os error 21)"
  | notDirectory => "Not a directory (os error 20)"
  | nameTooLong => "File name too long (os error 36)"
  | noRoom => "No space left on device (os error 28)"
  | nullInName => "file name contained an unexpected NUL byte"
  | notText => "stream did not contain valid UTF-8"

end FileTrouble

/-- The names from the root down to a file or directory. -/
abbrev Place := List String

/-- What stands at a place. -/
inductive Entry
  | directory
  | file (content : Bytes)
  /-- Empty for a reader, and a writer may put there what it likes. -/
  | sink
  /-- Endless for a reader, and without room for a writer. -/
  | full
deriving DecidableEq, Repr

/-- The files and directories that a program can see. -/
structure FileTree where
  /-- What stands below the root, which is a directory itself. -/
  entries : List (Place × Entry)
  /-- The directory at which the paths without a leading slash start. -/
  home : Place
deriving DecidableEq, Repr

namespace FileTree

def nameLimit : Nat := 255

/-- The paths of a file have fewer bytes. -/
def pathLimit : Nat := 4096

/-- What stands at a place, if anything does. -/
def entry? (t : FileTree) (place : Place) : Option Entry :=
  if place.isEmpty then some .directory else (t.entries.find? (·.1 == place)).map (·.2)

/-- The names between the slashes of a path. -/
def names (path : String) : List String := (path.splitOn "/").filter (!·.isEmpty)

/-- Where the walk along a path starts, if a file can have such a path. -/
def start (t : FileTree) (path : String) : Except FileTrouble Place :=
  if path.toList.contains '\x00' then .error .nullInName
  else if path.isEmpty then .error .missing
  else if pathLimit ≤ path.utf8ByteSize then .error .nameTooLong
  else .ok (if path.startsWith "/" then [] else t.home)

/-- The place to which names lead from a place; each is looked up in a directory. -/
def walk (t : FileTree) : Place → List String → Except FileTrouble Place
  | place, [] => .ok place
  | place, name :: rest =>
    match t.entry? place with
    | none => .error .missing
    | some .directory =>
      if name = "." then t.walk place rest
      else if name = ".." then t.walk place.dropLast rest
      else if nameLimit < name.utf8ByteSize then .error .nameTooLong
      else if (t.entry? (place ++ [name])).isNone then .error .missing
      else t.walk (place ++ [name]) rest
    | some _ => .error .notDirectory

/-- The bytes of the file at a path. A slash after the last name asks for a directory. -/
def read (t : FileTree) (path : String) : Except FileTrouble Bytes := do
  let place ← t.walk (← t.start path) (names path ++ if path.endsWith "/" then ["."] else [])
  match t.entry? place with
  | none => .error .missing
  | some .directory => .error .directory
  | some (.file content) => .ok content
  | some .sink => .ok []
  | some .full => .error .noRoom

/-- The tree with a file of these bytes at a place. -/
def put (t : FileTree) (place : Place) (content : Bytes) : FileTree :=
  { t with entries := (place, .file content) :: t.entries.filter (·.1 != place) }

/-- The tree after bytes were written to a path. A path that ends in a slash or in dots
names a directory, whether it is there or not. -/
def write (t : FileTree) (path : String) (content : Bytes) : Except FileTrouble FileTree := do
  let start ← t.start path
  match (names path).getLast? with
  | none => .error .directory
  | some last =>
    let parent ← t.walk start ((names path).dropLast ++ ["."])
    if last = "." ∨ last = ".." ∨ path.endsWith "/" then .error .directory
    else if nameLimit < last.utf8ByteSize then .error .nameTooLong
    else
      match t.entry? (parent ++ [last]) with
      | some .directory => .error .directory
      | some .sink => .ok t
      | some .full => .error .noRoom
      | some (.file _) | none => .ok (t.put (parent ++ [last]) content)

end FileTree

end MarketLoad
