import TaggedParcel.Sample.Kinds

set_option relaxedAutoImplicit false
set_option autoImplicit false

/-!
# Sample types: records

Here are types with single values, from none to one of every kind.
The full names of all types start with the same root.
-/

namespace TaggedParcel.Sample

variable (root : String)

/-- No fields at all. -/
def empty : TypeDecl :=
  fresh (root ++ "Empty") none
    []

/-- Two integers. -/
def point : TypeDecl :=
  fresh (root ++ "Point") none
    [.field 1 "x" (plain .int) {},
    .field 2 "y" (plain .int) {}]

/-- A point with one field more, as a later version of it would have. -/
def pointV2 : TypeDecl :=
  fresh (root ++ "PointV2") none
    [.field 1 "x" (plain .int) {},
    .field 2 "y" (plain .int) {},
    .field 3 "label" (plain .string) {}]

/-- Ids with a gap. -/
def sparse : TypeDecl :=
  fresh (root ++ "Sparse") none
    [.field 1 "first" (plain .int) {},
    .field 3 "third" (plain .string) {}]

/-- A small object to be put into others. -/
def child : TypeDecl :=
  fresh (root ++ "Child") none
    [.field 1 "label" (plain .string) {},
    .field 2 "weight" (plain .int) {}]

/-- A text that may be absent. -/
def account : TypeDecl :=
  fresh (root ++ "Account") none
    [.field 1 "name" (optional .string) { nullable := true },
    .field 2 "uid" (plain .int) {}]

/-- Ids out of order, among them the object magic and the greatest one. -/
def shuffled : TypeDecl :=
  fresh (root ++ "Shuffled") (some "com.example.Shuffled")
    [.field 65534 "last" (plain .int) {},
    .field 20293 "magic" (plain .int) {},
    .field 300 "mid" (plain .string) {},
    .field 1 "first" (plain .long) {},
    .field 32768 "half" (optional .short) { nullable := true }]

/-- One field of every scalar kind. -/
def scalars : TypeDecl :=
  fresh (root ++ "Scalars") none
    [.field 1 "flag" (plain .bool) {},
    .field 2 "byte" (plain .byte) {},
    .field 3 "short" (plain .short) {},
    .field 4 "int" (plain .int) {},
    .field 5 "long" (plain .long) {},
    .field 6 "float" (plain .float) {},
    .field 7 "double" (plain .double) {},
    .field 8 "text" (plain .string) {}]

/-- Version gates on fields of every kind, integers and others. -/
def gated : TypeDecl :=
  fresh (root ++ "Gated") none
    [.field 1 "byte" (plain .byte) { versionGate := some 5 },
    .field 2 "short" (plain .short) { versionGate := some (-100) },
    .field 3 "int" (plain .int) { versionGate := some 10 },
    .field 4 "long" (plain .long) { versionGate := some 9223372036854775806 },
    .field 5 "maybe" (optional .int) { nullable := true, versionGate := some 0 },
    .field 6 "float" (plain .float) { versionGate := some 1 },
    .field 7 "flag" (plain .bool) { versionGate := some 0 },
    .field 8 "text" (plain .string) { versionGate := some 0 },
    .field 9 "low" (plain .long) { versionGate := some (-9223372036854775808) },
    .field 10 "items" (.list .int) { versionGate := some 1 }]

/-- Every kind of single value that may be absent. -/
def optionals : TypeDecl :=
  fresh (root ++ "Optionals") none
    [.field 1 "flag" (optional .bool) { nullable := true },
    .field 2 "byte" (optional .byte) { nullable := true },
    .field 3 "short" (optional .short) { nullable := true },
    .field 4 "int" (optional .int) { nullable := true },
    .field 5 "long" (optional .long) { nullable := true },
    .field 6 "float" (optional .float) { nullable := true },
    .field 7 "double" (optional .double) { nullable := true },
    .field 8 "text" (optional .string) { nullable := true },
    .field 9 "bytes" (optional .byteArray) { nullable := true },
    .field 10 "chunks" (optional .byteArrayArray) { nullable := true },
    .field 11 "ints" (optional .intArray) { nullable := true },
    .field 12 "floats" (optional .floatArray) { nullable := true },
    .field 13 "strings" (optional .stringArray) { nullable := true },
    .field 14 "bundle" (optional .bundle) { nullable := true },
    .field 15 "binder" (optional .binder) { nullable := true }]

/-- Fields that may be empty in memory and must not be when written. -/
def required : TypeDecl :=
  fresh (root ++ "Required") none
    [.field 1 "id" (plain .int) {},
    .field 2 "token" (optional .string) {},
    .field 3 "count" (optional .int) {}]

/-- An object that must be there. -/
def requiredChild : TypeDecl :=
  fresh (root ++ "RequiredChild") none
    [.field 1 "before" (plain .int) {},
    .field 2 "child" (.object (root ++ "Required")) {}]

/-- Objects with required fields, in every kind of collection. -/
def requiredBag : TypeDecl :=
  fresh (root ++ "RequiredBag") none
    [.field 1 "items" (.objectList (root ++ "Required")) {},
    .field 2 "slots" (.objectArray (root ++ "Required")) {},
    .field 3 "named" (.objectMap .string (root ++ "Required")) {},
    .field 4 "tagged" (.objectList (root ++ "Required")) { directEncoding := true }]

/-- A type with a parameter in its full name. -/
def wrapper : TypeDecl :=
  fresh (root ++ "Wrapper<i32>") none
    [.field 1 "inner" (plain .int) {}]

end TaggedParcel.Sample
