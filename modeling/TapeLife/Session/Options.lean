import TapeLife.Session.Groups

/-!
# Session/Options — which arguments are options, and which are their values

Both looks at a command line go over the same arguments, but the second one takes the argument after
an override for its value, and the first one does not.  A place on the command line is given by the
arguments from there on.  `secondOptions` and `secondValues` are the places of the second look,
wherever it would be stopped; `firstOptions` are the places that the first look comes to before it
leaves, and `actedOn` those at which it does something.
-/

namespace TapeLife

/-- Whether an argument is an override, which has a value. -/
def isOverride (argument : String) : Bool := overrides.any (·.flags.contains argument)

/-- Whether the second look takes the argument after this one for its value. -/
def takesValue (argument : String) : Bool := isLoadFlag argument || isOverride argument

/-- The places that the second look takes for options. -/
def secondOptions : (arguments : List String) → List (List String)
  | [] => []
  | argument :: rest =>
    if takesValue argument then
      match rest with
      | [] => [[argument]]
      | value :: rest => (argument :: value :: rest) :: secondOptions rest
    else (argument :: rest) :: secondOptions rest

/-- The places that the second look takes for the values of options. -/
def secondValues : (arguments : List String) → List (List String)
  | [] => []
  | argument :: rest =>
    if takesValue argument then
      match rest with
      | [] => []
      | value :: rest => (value :: rest) :: secondValues rest
    else secondValues rest

/-- What the second look does at an option. -/
def applyOption (s : Settings) : (place : List String) → Except ArgumentsError Settings
  | [] => .ok s
  | argument :: rest =>
    if isLoadFlag argument then .ok s
    else match overrides.find? (·.flags.contains argument) with
      | some override =>
        match rest with
        | [] => .error (.valueMissing argument)
        | value :: _ =>
          match override.apply value s with
          | some s => .ok s
          | none => .error (.badValue argument value)
      | none =>
        match switches.lookup argument with
        | some switch => .ok (switch s)
        | none => .error (.unknown argument)

/-- The places that the first look takes for options, as far as it gets. -/
def firstOptions (tree : FileTree) : (arguments : List String) → List (List String)
  | [] => []
  | argument :: rest =>
    if isLoadFlag argument then
      match rest with
      | [] => [[argument]]
      | path :: rest =>
        match Settings.ofFile tree path with
        | .error _ => [argument :: path :: rest]
        | .ok _ => (argument :: path :: rest) :: firstOptions tree rest
    else if argument = "--generate-config" ∨ argument = "--help" then [argument :: rest]
    else (argument :: rest) :: firstOptions tree rest

/-- Whether the first look does something at an option: loads a file, writes a template or shows the
help. -/
def isActedOn (place : List String) : Bool := place.head?.any ArgumentGroup.reserved.contains

/-- The places at which the first look does something. -/
def actedOn (tree : FileTree) (arguments : List String) : List (List String) :=
  (firstOptions tree arguments).filter isActedOn

end TapeLife
