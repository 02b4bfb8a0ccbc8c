import TaggedParcel.CommandLine.Glob
import TaggedParcel.CommandLine.Request
import TaggedParcel.Inspect.Render

set_option relaxedAutoImplicit false
set_option autoImplicit false

/-!
# What a request shows

A request for a file shows its report or says why there is none. A request for a directory shows
the reports of the files in it, and passes over those that have none.

## Main definitions

* `Target` — what was found at the path of a request.
* `Outcome` — what a request prints, and how the program ends.
* `InspectRequest.run` — the outcome of a request on a target.
* `respond` — the outcome of arguments, given a way to look up paths.
-/

namespace TaggedParcel

/-- A file in a directory. -/
structure DirectoryEntry where
  /-- The path under which it is shown: that of the directory, and the name. -/
  path : String
  /-- Its name in the directory. -/
  name : String
  /-- What is in it. -/
  bytes : Array UInt8

/-- The file of a name in a directory that is shown under a path. -/
def DirectoryEntry.inDirectory (path name : String) (bytes : Array UInt8) : DirectoryEntry :=
  ⟨if path.endsWith "/" then path ++ name else path ++ "/" ++ name, name, bytes⟩

/-- What was found at a path. -/
inductive Target where
  | file (bytes : Array UInt8)
  /-- A directory, with the plain files directly in it. -/
  | directory (entries : List DirectoryEntry)
  /-- Nothing that can be read, for a cause. -/
  | unreadable (cause : String)

/-- What a request prints, and how the program ends. -/
structure Outcome where
  /-- The exit code. -/
  exit : UInt8
  /-- What goes to standard output. -/
  output : String
  /-- What goes to standard error. -/
  errors : String
  deriving DecidableEq, Repr

namespace Outcome

/-- The end of a request that did what it was asked. -/
def success (output : String) : Outcome :=
  ⟨0, output, ""⟩

/-- The end of a request that failed at something, for a cause. -/
def failure (context cause : String) : Outcome :=
  ⟨1, "", "Error: " ++ context ++ "\n\nCaused by:\n    " ++ cause ++ "\n"⟩

/-- What is shown of the program itself. -/
def version : Outcome :=
  success "safeparcel-tools 0.3.0\n"

/-- The end of arguments that are no request. -/
def usage : Outcome :=
  ⟨2, "", "usage: inspect PATH [--glob PATTERN] [--sort size] [--limit N] " ++
    "[--format pretty|json] [--limits default|testing|unlimited]\n"⟩

end Outcome

/-- A report in a format, ended by a line break. -/
def InspectReport.render (report : InspectReport) : OutputFormat → String
  | .pretty => report.text
  | .json => report.toJson.pretty ++ "\n"

namespace DirectoryEntry

/-- Whether the path or the name of a file fits a pattern. -/
def fits (tokens : List Glob.Token) (entry : DirectoryEntry) : Bool :=
  Glob.isMatch tokens entry.path.toList || Glob.isMatch tokens entry.name.toList

/-- Larger files come first, and those of one size in the order of their paths. -/
def bySize (a b : DirectoryEntry) : Bool :=
  b.bytes.size < a.bytes.size || (a.bytes.size == b.bytes.size && a.path ≤ b.path)

/-- What is shown of a file in a directory: nothing if it has no report. -/
def shown (request : InspectRequest) (entry : DirectoryEntry) : String :=
  match InspectReport.ofBytes entry.bytes request.limits with
  | .ok report =>
    s!"== {entry.path} ({entry.bytes.size} bytes) ==\n" ++ report.render request.format
  | .error _ => ""

end DirectoryEntry

namespace InspectRequest

/-- The files of a directory that a request is about, in the order in which they are shown. Ten
are shown if they are ordered and no number is given. -/
def select (request : InspectRequest) (entries : List DirectoryEntry) : List DirectoryEntry :=
  let ordered := if request.bySize then entries.mergeSort DirectoryEntry.bySize else entries
  match request.limit, request.bySize with
  | some limit, _ => ordered.take limit
  | none, true => ordered.take 10
  | none, false => ordered

/-- What is shown of a directory. -/
def runDirectory (request : InspectRequest) (entries : List DirectoryEntry) : Outcome :=
  let shown := fun entries =>
    Outcome.success (String.join ((request.select entries).map (DirectoryEntry.shown request)))
  match request.glob with
  | none => shown entries
  | some pattern =>
    match Glob.parse pattern with
    | .ok tokens => shown (entries.filter (DirectoryEntry.fits tokens))
    | .error e => .failure "invalid glob pattern" e.message

/-- What is shown of a file. -/
def runFile (request : InspectRequest) (bytes : Array UInt8) : Outcome :=
  match InspectReport.ofBytes bytes request.limits with
  | .ok report => .success (report.render request.format)
  | .error e => .failure "scan object" e.message

/-- The outcome of a request. -/
def run (request : InspectRequest) : Target → Outcome
  | .file bytes => request.runFile bytes
  | .directory entries => request.runDirectory entries
  | .unreadable cause => .failure ("read object " ++ request.path) cause

end InspectRequest

/-- The outcome of arguments. The path of a request is looked up by `find`. -/
def respond {m : Type → Type} [Monad m] (find : String → m Target) (arguments : List String) :
    m Outcome :=
  match Command.parse? arguments with
  | none => return .usage
  | some .version => return .version
  | some (.inspect request) => return request.run (← find request.path)

end TaggedParcel
