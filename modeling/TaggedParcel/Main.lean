import TaggedParcel.CommandLine.Run

set_option relaxedAutoImplicit false
set_option autoImplicit false

/-!
# The program

The program reads one request from its arguments, looks up the path on the disk, prints what the
request shows, and ends with the exit code of the outcome.
-/

namespace TaggedParcel

/-- The cause of a failure to look something up. -/
def lookupCause (e : IO.Error) : String :=
  match e with
  | .noFileOrDirectory _ code details | .permissionDenied _ code details
  | .inappropriateType _ code details | .invalidArgument _ code details =>
    s!"{details} (os error {code})"
  | e => toString e

/-- What stands at a path. Of a directory, what is not a plain file is left out. Opening the path
first fails with the cause that is shown. -/
def lookup (path : String) : IO Target := do
  let _ ← IO.FS.Handle.mk path .read
  let place ← IO.FS.realPath path
  if ← place.isDir then
    let files ← (← place.readDir).toList.filterMapM fun found => do
      match ← found.path.metadata.toBaseIO with
      | .ok about =>
        if about.type == .file then
          let content ← IO.FS.readBinFile found.path
          return some (DirectoryEntry.inDirectory path found.fileName content.data)
        else
          return none
      | .error _ => return none
    return .directory files
  else
    return .file (← IO.FS.readBinFile path).data

/-- What stands at a path, or why nothing can be read there. -/
def find (path : String) : IO Target := do
  match ← (lookup path).toBaseIO with
  | .ok target => return target
  | .error e => return .unreadable (lookupCause e)

end TaggedParcel

/-- Answers the request in the arguments. -/
def main (arguments : List String) : IO UInt32 := do
  let outcome ← TaggedParcel.respond TaggedParcel.find arguments
  IO.print outcome.output
  IO.eprint outcome.errors
  return outcome.exit.toUInt32
