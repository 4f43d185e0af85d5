import TapeLife.Files.Path

/-!
# Files/Tree — directories and files

A `FileTree` is what stands below the working directory, and below the root of the machine for
absolute paths.  Every operation gives the tree afterwards or the one cause for which it failed; a
failed operation leaves behind only the directories that it had already made.
-/

namespace TapeLife

/-- Why an operation on files failed. -/
inductive FileError
  | notFound
  | alreadyExists
  | notADirectory
  | isADirectory
  | noSpace
  | nameTooLong
  | nulInPath
  | notText
deriving DecidableEq, Repr

namespace FileError

/-- The system's number of a cause, where it has one. -/
def number? : FileError → Option Nat
  | .notFound => some 2
  | .alreadyExists => some 17
  | .notADirectory => some 20
  | .isADirectory => some 21
  | .noSpace => some 28
  | .nameTooLong => some 36
  | .nulInPath | .notText => none

/-- What happened, in words. -/
def description : FileError → String
  | .notFound => "No such file or directory"
  | .alreadyExists => "File exists"
  | .notADirectory => "Not a directory"
  | .isADirectory => "Is a directory"
  | .noSpace => "No space left on device"
  | .nameTooLong => "File name too long"
  | .nulInPath => "file name contained an unexpected NUL byte"
  | .notText => "stream did not contain valid UTF-8"

/-- The wording of a cause in messages. -/
def message (e : FileError) : String :=
  match e.number? with
  | some n => s!"{e.description} (os error {n})"
  | none => e.description

/-- The kind of a cause in a report for programmers. -/
def kind : FileError → String
  | .notFound => "NotFound"
  | .alreadyExists => "AlreadyExists"
  | .notADirectory => "NotADirectory"
  | .isADirectory => "IsADirectory"
  | .noSpace => "StorageFull"
  | .nameTooLong => "InvalidFilename"
  | .nulInPath => "InvalidInput"
  | .notText => "InvalidData"

/-- The wording of a cause in a report for programmers. -/
def report (e : FileError) : String :=
  match e.number? with
  | some n => s!"Os \x7b code: {n}, kind: {e.kind}, message: \"{e.description}\" \x7d"
  | none => s!"Error \x7b kind: {e.kind}, message: \"{e.description}\" \x7d"

end FileError

/-- What stands at a place of a tree. -/
inductive Entry
  | directory
  | file (contents : List UInt8)
deriving DecidableEq

/-- A place of a tree: the names that lead to it.  Places of absolute paths begin with a slash as
their first name, which no name can be. -/
abbrev Location := List String

/-- Directories and files by their places. -/
structure FileTree where
  entries : List (Location × Entry)

namespace FileTree

/-- The tree of nothing but the working directory. -/
def empty : FileTree := ⟨[]⟩

/-- The place where a path starts. -/
def origin (path : Path) : Location := if path.isAbsolute then ["/"] else []

/-- What stands at a place. -/
def entry? (tree : FileTree) (place : Location) : Option Entry :=
  if place = [] ∨ place = ["/"] then some .directory else tree.entries.lookup place

/-- The tree with an entry at a place, whatever stood there before. -/
def put (tree : FileTree) (place : Location) (entry : Entry) : FileTree :=
  ⟨tree.entries.filter (·.1 != place) ++ [(place, entry)]⟩

/-- The place above; the working directory and the root are above themselves. -/
def above (place : Location) : Location :=
  if place = ["/"] then place else place.dropLast

/-- The longest name of an entry, in bytes. -/
def maxNameSize : Nat := 255

/-- One step from a directory. -/
def enter (tree : FileTree) (place : Location) (name : String) : Except FileError Location :=
  match tree.entry? place with
  | none => .error .notFound
  | some (.file _) => .error .notADirectory
  | some .directory =>
    if name = "." then .ok place
    else if name = ".." then .ok (above place)
    else if maxNameSize < name.utf8ByteSize then .error .nameTooLong
    else .ok (place ++ [name])

/-- The place that steps lead to.  Every place on the way must be a directory; the last need not
be there. -/
def follow (tree : FileTree) (place : Location) : List String → Except FileError Location
  | [] => .ok place
  | name :: names => do follow tree (← tree.enter place name) names

/-- The place that a path names. -/
def locate (tree : FileTree) (path : Path) : Except FileError Location :=
  if path = "" then .error .notFound
  else if path.toList.contains '\x00' then .error .nulInPath
  else tree.follow (origin path) path.steps

/-- What a path names. -/
def find (tree : FileTree) (path : Path) : Except FileError (Location × Entry) := do
  let place ← tree.locate path
  match tree.entry? place with
  | none => .error .notFound
  | some (.file contents) =>
    if path.endsInSlash then .error .notADirectory else .ok (place, .file contents)
  | some .directory => .ok (place, .directory)

/-- Whether a path names a directory. -/
def isDirectory (tree : FileTree) (path : Path) : Bool :=
  match tree.find path with
  | .ok (_, .directory) => true
  | _ => false

/-- The contents of a file. -/
def read (tree : FileTree) (path : Path) : Except FileError (List UInt8) := do
  match ← tree.find path with
  | (_, .file contents) => .ok contents
  | (_, .directory) => .error .isADirectory

/-- The contents of a file as text. -/
def readText (tree : FileTree) (path : Path) : Except FileError String := do
  match String.fromUTF8? (← tree.read path).toByteArray with
  | some text => .ok text
  | none => .error .notText

/-- The names in a directory. -/
def list (tree : FileTree) (path : Path) : Except FileError (List String) := do
  match ← tree.find path with
  | (_, .file _) => .error .notADirectory
  | (place, .directory) =>
    .ok (tree.entries.filterMap fun (other, _) =>
      match other.getLast? with
      | some name => if other.dropLast = place ∧ other ≠ ["/"] then some name else none
      | none => none)

/-- Whether a path ends at a name of its own, not at a step that stays or goes up. -/
def endsInName (path : Path) : Bool :=
  match path.steps.getLast? with
  | some name => name != "." && name != ".."
  | none => false

/-- Makes one directory. -/
def makeDirectory (tree : FileTree) (path : Path) : Except FileError FileTree := do
  let place ← tree.locate path
  match tree.entry? place with
  | some _ => .error .alreadyExists
  | none => .ok (tree.put place .directory)

/-- Makes a directory and those above it that are missing, at most `depth` levels up: the tree
afterwards, and why it failed if it did. -/
def makeDirectoriesUpTo (tree : FileTree) (path : Path) :
    (depth : Nat) → FileTree × Option FileError
  | 0 => (tree, none)
  | depth + 1 =>
    if path = "" then (tree, none)
    else match tree.makeDirectory path with
      | .ok tree => (tree, none)
      | .error .notFound =>
        match path.parent? with
        | none => (tree, some .notFound)
        | some parent =>
          match tree.makeDirectoriesUpTo parent depth with
          | (tree, some e) => (tree, some e)
          | (tree, none) =>
            match tree.makeDirectory path with
            | .ok tree => (tree, none)
            | .error e => (tree, if tree.isDirectory path then none else some e)
      | .error e => (tree, if tree.isDirectory path then none else some e)

/-- Makes a directory and those above it that are missing. -/
def makeDirectories (tree : FileTree) (path : Path) : FileTree × Option FileError :=
  tree.makeDirectoriesUpTo path (path.parts.length + 1)

/-- Makes the directories that a file needs above it. -/
def makeParents (tree : FileTree) (path : Path) : FileTree × Option FileError :=
  match path.parent? with
  | none => (tree, none)
  | some parent => tree.makeDirectories parent

/-- Opens a file for writing from the start: it is empty afterwards. -/
def create (tree : FileTree) (path : Path) : Except FileError (Location × FileTree) := do
  let place ← tree.locate path
  if path.endsInSlash || !endsInName path then .error .isADirectory
  else match tree.entry? place with
    | some .directory => .error .isADirectory
    | _ => .ok (place, tree.put place (.file []))

/-- Writes bytes into a file from an offset on; a gap before it is filled with zeros. -/
def writeAt (tree : FileTree) (place : Location) (offset : Nat) (bytes : List UInt8) : FileTree :=
  match tree.entry? place with
  | some (.file contents) =>
    let head := contents.take offset ++ List.replicate (offset - contents.length) 0
    tree.put place (.file (head ++ bytes ++ contents.drop (offset + bytes.length)))
  | _ => tree

/-- Writes a whole file; the directory must be there. -/
def write (tree : FileTree) (path : Path) (bytes : List UInt8) : FileTree × Option FileError :=
  match tree.create path with
  | .error e => (tree, some e)
  | .ok (place, tree) => (tree.writeAt place 0 bytes, none)

/-- Writes a whole file and makes the directories above it that are missing. -/
def writeDeep (tree : FileTree) (path : Path) (bytes : List UInt8) : FileTree × Option FileError :=
  match tree.makeParents path with
  | (tree, some e) => (tree, some e)
  | (tree, none) => tree.write path bytes

end FileTree

end TapeLife
