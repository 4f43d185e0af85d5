/-!
# Files/Path — the text of a path and the steps it names

A path is a text.  Its `steps` are the names between its slashes, and a directory is joined to a
name with exactly one slash (`Path.join`).
-/

namespace TapeLife

/-- A path, as it is written. -/
abbrev Path := String

namespace Path

/-- Whether the path starts at the root of the machine and not in the working directory. -/
def isAbsolute (path : Path) : Bool := path.toList.head? == some '/'

/-- Whether the path says that it names a directory. -/
def endsInSlash (path : Path) : Bool := path.toList.getLast? == some '/'

/-- The names between slashes; names of no length do not count. -/
def steps (path : Path) : List String :=
  ((path.toList.splitOn '/').map String.ofList).filter (· != "")

/-- The names between slashes without those that stay in place, the first of a relative path
excepted. -/
def parts (path : Path) : List String :=
  match path.isAbsolute, path.steps with
  | false, "." :: rest => "." :: rest.filter (· != ".")
  | _, steps => steps.filter (· != ".")

/-- The path of parts. -/
def ofParts (absolute : Bool) (parts : List String) : Path :=
  (if absolute then "/" else "") ++ "/".intercalate parts

/-- The path without its last part; nothing if there is no part. -/
def parent? (path : Path) : Option Path :=
  if path.parts = [] then none else some (ofParts path.isAbsolute path.parts.dropLast)

/-- A name inside a directory.  An absolute name stands for itself. -/
def join (directory : Path) (name : String) : Path :=
  if Path.isAbsolute name || directory == "" then name
  else if directory.endsInSlash then directory ++ name
  else directory ++ "/" ++ name

end Path

end TapeLife
