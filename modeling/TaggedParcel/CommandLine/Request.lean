import TaggedParcel.Frame.Error

set_option relaxedAutoImplicit false
set_option autoImplicit false

/-!
# Requests on the command line

There is one command, `inspect`, with one path and options in any order. The value of an option
is the next argument or follows an equals sign. Each option may be given once. In place of the
command the version can be asked for.

## Main definitions

* `InspectRequest` — what is to be inspected and how it is shown.
* `InspectRequest.parse?` — the request of the arguments of the command, if they are well formed.
* `Command.parse?` — what a list of arguments asks for, if they are well formed.
-/

namespace TaggedParcel

/-- How reports are shown. -/
inductive OutputFormat where
  | pretty
  | json
  deriving DecidableEq, Repr

/-- What is to be inspected and how it is shown. -/
structure InspectRequest where
  /-- A file, or a directory of files. -/
  path : String
  /-- A pattern that the files of a directory have to fit. -/
  glob : Option String
  /-- Whether the files of a directory are shown largest first. -/
  bySize : Bool
  /-- How many files of a directory are shown at most. -/
  limit : Option Nat
  /-- How reports are shown. -/
  format : OutputFormat
  /-- The bounds on what is scanned. -/
  limits : Limits
  deriving DecidableEq, Repr

/-- The arguments read so far. -/
structure Arguments where
  paths : List String := []
  glob : Option String := none
  sort : Option Unit := none
  limit : Option Nat := none
  format : Option OutputFormat := none
  limits : Option Limits := none

namespace Arguments

/-- Gives an option its value, unless it has one. -/
def once {α : Type} (old : Option α) (new : Option α) : Option (Option α) :=
  match old, new with
  | none, some a => some (some a)
  | _, _ => none

/-- A count: decimal digits, perhaps behind a plus sign, that fit 64 bits. -/
def count? (text : String) : Option Nat :=
  let digits := match text.toList with
    | '+' :: rest => rest
    | chars => chars
  if digits.isEmpty || !digits.all Char.isDigit then
    none
  else
    let n := digits.foldl (fun n c => 10 * n + (c.toNat - '0'.toNat)) 0
    if n < UInt64.size then some n else none

/-- The only order. -/
def sort? : String → Option Unit
  | "size" => some ()
  | _ => none

/-- The ways to show a report. -/
def format? : String → Option OutputFormat
  | "pretty" => some .pretty
  | "json" => some .json
  | _ => none

/-- The presets of limits. -/
def limits? : String → Option Limits
  | "default" => some .standard
  | "testing" => some .small
  | "unlimited" => some .unlimited
  | _ => none

/-- Gives the option of a name its value. -/
def setOption (a : Arguments) (name value : String) : Option Arguments :=
  match name with
  | "glob" => do return { a with glob := ← once a.glob (some value) }
  | "sort" => do return { a with sort := ← once a.sort (sort? value) }
  | "limit" => do return { a with limit := ← once a.limit (count? value) }
  | "format" => do return { a with format := ← once a.format (format? value) }
  | "limits" => do return { a with limits := ← once a.limits (limits? value) }
  | _ => none

/-- Whether an argument looks like an option. A minus sign alone does not. -/
def isOption (argument : String) : Bool :=
  match argument.toList with
  | '-' :: _ :: _ => true
  | _ => false

/-- The name of a long option, and its value if that follows an equals sign. -/
def splitOption (argument : String) : Option (String × Option String) :=
  match argument.toList with
  | '-' :: '-' :: chars =>
    let name := String.ofList (chars.takeWhile (· != '='))
    match chars.dropWhile (· != '=') with
    | [] => some (name, none)
    | _ :: value => some (name, some (String.ofList value))
  | _ => none

/-- Reads arguments in order. Behind two minus signs there are only paths. -/
def read (a : Arguments) : List String → Option Arguments
  | [] => some a
  | argument :: rest =>
    if argument = "--" then
      some { a with paths := a.paths ++ rest }
    else if isOption argument then
      match splitOption argument, rest with
      | some (name, some value), rest => do (← a.setOption name value).read rest
      | some (name, none), value :: rest =>
        if isOption value then none else do (← a.setOption name value).read rest
      | _, _ => none
    else
      { a with paths := a.paths ++ [argument] }.read rest

end Arguments

/-- The request of the arguments behind the command's name. -/
def InspectRequest.parse? (arguments : List String) : Option InspectRequest := do
  let a ← Arguments.read {} arguments
  match a.paths with
  | [path] =>
    if path.isEmpty then
      none
    else
      return ⟨path, a.glob, a.sort.isSome, a.limit, a.format.getD .pretty,
        a.limits.getD .standard⟩
  | _ => none

/-- What the program is asked for. -/
inductive Command where
  /-- Its name and version. -/
  | version
  /-- To inspect something. -/
  | inspect (request : InspectRequest)
  deriving DecidableEq, Repr

/-- What the arguments behind the program's name ask for. -/
def Command.parse? : List String → Option Command
  | [] => none
  | first :: arguments =>
    if first = "inspect" then
      (InspectRequest.parse? arguments).map .inspect
    else if first = "--version" ∨ first.startsWith "-V" then
      some .version
    else
      none

end TaggedParcel
