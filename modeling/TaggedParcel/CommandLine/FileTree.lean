import TaggedParcel.CommandLine.Run

set_option relaxedAutoImplicit false
set_option autoImplicit false

/-!
# Files in memory

A tree of files that requests can be tried on without touching a disk. A path leads from the
root of the tree through its components: a dot stays, two dots go back, and a name goes into a
directory. The limits on the length of names and paths are those of a disk.

## Main definitions

* `FileTree` — files and directories under their places.
* `FileTree.add`, `FileTree.ofPaths` — the tree of files at paths.
* `FileTree.walk`, `FileTree.target` — what a path leads to.
-/

namespace TaggedParcel

/-- The names that lead from the root of a tree to a place in it, the last one first. -/
abbrev Place : Type := List String

namespace Place

/-- The longest name that can be looked up, in bytes of its UTF-8 form. -/
def maxNameSize : Nat := 255

/-- The longest path that can be looked up, in bytes of its UTF-8 form. -/
def maxPathSize : Nat := 4095

/-- The place that a component of a path leads to from here. -/
def step (place : Place) (component : String) : Place :=
  if component = "" ∨ component = "." then place
  else if component = ".." then place.tail
  else component :: place

end Place

/-- The components of a path, split at separators. -/
def pathComponents (path : String) : List String :=
  (path.toList.splitOnP (· == '/')).map String.ofList

/-- What stands at a place of a tree. -/
inductive FileNode where
  | file (bytes : Array UInt8)
  | directory

/-- Files and directories under their places, each place once. The root is not listed. -/
structure FileTree where
  nodes : List (Place × FileNode)

/-- Why a path leads nowhere. -/
inductive PathFault where
  /-- Nothing stands there. -/
  | missing
  /-- It leads through a file. -/
  | notDirectory
  /-- It, or one of its components, is too long. -/
  | nameTooLong
  deriving DecidableEq, Repr

/-- The wording of a fault in a path. -/
def PathFault.message : PathFault → String
  | .missing => "No such file or directory (os error 2)"
  | .notDirectory => "Not a directory (os error 20)"
  | .nameTooLong => "File name too long (os error 36)"

namespace FileTree

/-- The tree without files. -/
def empty : FileTree :=
  ⟨[]⟩

/-- What stands at a place. -/
def node? (t : FileTree) (place : Place) : Option FileNode :=
  if place.isEmpty then some .directory else t.nodes.lookup place

/-! ## Making a tree -/

/-- Puts a node at a place, instead of the one there. -/
def putIn (place : Place) (node : FileNode) : List (Place × FileNode) → List (Place × FileNode)
  | [] => [(place, node)]
  | (other, old) :: rest =>
    if other = place then (place, node) :: rest else (other, old) :: putIn place node rest

/-- Puts a file at a place, instead of the one there. -/
def putFile (t : FileTree) (place : Place) (bytes : Array UInt8) : FileTree :=
  ⟨putIn place (.file bytes) t.nodes⟩

/-- Makes a directory at a place, unless something stands there. -/
def makeDirectory (t : FileTree) (place : Place) : FileTree :=
  if (t.node? place).isSome then t else ⟨putIn place .directory t.nodes⟩

/-- Adds a file below a place, with the directories that its path leads through. -/
def addBelow (bytes : Array UInt8) : FileTree → Place → List String → FileTree
  | t, _, [] => t
  | t, place, [name] => t.putFile (place.step name) bytes
  | t, place, component :: rest =>
    addBelow bytes (t.makeDirectory (place.step component)) (place.step component) rest

/-- Adds a file, instead of one that stands at its path. -/
def add (t : FileTree) (path : String) (bytes : Array UInt8) : FileTree :=
  addBelow bytes t [] (pathComponents path)

/-- The tree of files at paths, of which later ones win. -/
def ofPaths (files : List (String × Array UInt8)) : FileTree :=
  files.foldl (fun t (path, bytes) => t.add path bytes) empty

/-! ## Looking up -/

/-- The place that components lead to from a place. Only a directory can be left, even by a dot
or by two. -/
def walk (t : FileTree) : Place → List String → Except PathFault Place
  | place, [] => .ok place
  | place, component :: rest =>
    match t.node? place with
    | some .directory =>
      if Place.maxNameSize < component.utf8ByteSize then
        .error .nameTooLong
      else
        t.walk (place.step component) rest
    | some (.file _) => .error .notDirectory
    | none => .error .missing

/-- The plain files directly in a directory that is shown under a path. Those that it gives too
long a path cannot be looked at, and are left out. -/
def entries (t : FileTree) (place : Place) (path : String) : List DirectoryEntry :=
  t.nodes.filterMap fun
    | (name :: above, .file bytes) =>
      let entry := DirectoryEntry.inDirectory path name bytes
      if above = place ∧ entry.path.utf8ByteSize ≤ Place.maxPathSize then some entry else none
    | _ => none

/-- What stands at a place that a path leads to. -/
def targetAt (t : FileTree) (path : String) (place : Place) : Target :=
  match t.node? place with
  | some (.file bytes) => .file bytes
  | some .directory => .directory (t.entries place path)
  | none => .unreadable PathFault.missing.message

/-- What a path leads to. Paths from the root of a disk lead into an empty tree. -/
def target (t : FileTree) (path : String) : Target :=
  let root := if path.startsWith "/" then empty else t
  if Place.maxPathSize < path.utf8ByteSize then
    .unreadable PathFault.nameTooLong.message
  else
    match root.walk [] (pathComponents path) with
    | .ok place => root.targetAt path place
    | .error fault => .unreadable fault.message

end FileTree

end TaggedParcel
