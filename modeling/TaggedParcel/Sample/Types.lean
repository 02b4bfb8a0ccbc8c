import TaggedParcel.Sample.Collections
import TaggedParcel.Sample.Kinds
import TaggedParcel.Sample.Nesting
import TaggedParcel.Sample.Records

set_option relaxedAutoImplicit false
set_option autoImplicit false

/-!
# Sample types

First come types that cannot be read, or that have no schema at all, and then all sample types.
The full names of all types start with the same root.

## Main definitions

* `Sample.types` — all sample types, with full names under a root.
* `Sample.environment` — their schemas, and a factory for one kind of proxy.
* `Sample.find?` — the sample type of a short name.
-/

namespace TaggedParcel.Sample

/-! ## Faulty types -/

section Faulty

variable (root : String)

/-- A type that can be written and not read. -/
def encodeOnly : TypeDecl :=
  abstract (root ++ "EncodeOnly") none
    [.field 1 "value" (plain .int) {}]

/-- Objects of a type that cannot be read. -/
def hasEncodeOnly : TypeDecl :=
  fresh (root ++ "HasEncodeOnly") none
    [.field 1 "item" (.object (root ++ "EncodeOnly")) { nullable := true },
    .field 2 "items" (.objectList (root ++ "EncodeOnly")) {},
    .field 3 "after" (plain .int) {}]

/-- An id used twice. -/
def twice : TypeDecl :=
  fresh (root ++ "Twice") none
    [.field 4 "a" (plain .int) {},
    .field 4 "b" (plain .int) {}]

/-- Objects of a type without a schema. -/
def hasTwice : TypeDecl :=
  fresh (root ++ "HasTwice") none
    [.field 1 "before" (plain .int) {},
    .field 2 "item" (.object (root ++ "Twice")) { nullable := true },
    .field 3 "items" (.objectList (root ++ "Twice")) { directEncoding := true },
    .field 4 "named" (.objectMap .string (root ++ "Twice")) {},
    .field 5 "after" (plain .int) {}]

/-- An id used by the type and by its ancestor. -/
def clash : TypeDecl :=
  fresh (root ++ "Clash") none
    [.inherit "point" (point root),
    .field 2 "z" (plain .int) {}]

/-- An id used by two ancestors. -/
def twoBases : TypeDecl :=
  fresh (root ++ "TwoBases") none
    [.inherit "point" (point root),
    .inherit "child" (child root),
    .field 9 "z" (plain .int) {}]

/-- An array that no field can carry. -/
def badLong : TypeDecl :=
  fresh (root ++ "BadLong") none
    [.field 1 "stamps" (.value (.uncarried (.array .long)) false) {}]

/-- Two ancestors without schemas, and a fault of its own. -/
def inheritsBroken : TypeDecl :=
  fresh (root ++ "InheritsBroken") none
    [.inherit "bad" (badLong root),
    .inherit "worse" (twice root),
    .field 0 "zero" (plain .int) {}]

/-- The reserved id zero. -/
def zeroId : TypeDecl :=
  fresh (root ++ "ZeroId") none
    [.field 0 "zero" (plain .int) {}]

/-- The reserved id of an escape. -/
def escapeId : TypeDecl :=
  fresh (root ++ "EscapeId") none
    [.field 1 "ok" (plain .int) {},
    .field 65535 "escape" (plain .int) {}]

/-- Two faults, of which the first in order counts. -/
def zeroTwice : TypeDecl :=
  fresh (root ++ "ZeroTwice") (some "renamed.ZeroTwice")
    [.field 3 "a" (plain .int) {},
    .field 3 "b" (plain .int) {},
    .field 0 "zero" (plain .int) {}]

/-- An array that no field can carry, and that may be absent. -/
def badOptLong : TypeDecl :=
  fresh (root ++ "BadOptLong") none
    [.field 1 "stamps" (.value (.uncarried (.array .long)) true) { nullable := true }]

/-- A kind of number that no field can carry, and a reserved id. -/
def badU32 : TypeDecl :=
  fresh (root ++ "BadU32") none
    [.field 0 "zero" (plain .int) {},
    .field 1 "raw" (.value (.uncarried (.unsupported "u32")) false) {}]

/-- A kind of number that no field can carry, and that may be absent. -/
def badOptU32 : TypeDecl :=
  fresh (root ++ "BadOptU32") none
    [.field 1 "raw" (.value (.uncarried (.unsupported "u32")) true) {}]

/-- A list of elements that no list can carry. -/
def badList : TypeDecl :=
  fresh (root ++ "BadList") none
    [.field 1 "floats" (.list (.refined floats)) { directList := true }]

/-- A map to elements that no map can carry. -/
def badMap : TypeDecl :=
  fresh (root ++ "BadMap") none
    [.field 1 "floats" (.map .string (.refined floats)) {}]

end Faulty

/-! ## All types -/

/-- All sample types, with full names under a root. -/
def types (root : String) : List TypeDecl :=
  [empty root, point root, pointV2 root, sparse root, child root, account root, shuffled root,
    scalars root, gated root, optionals root, required root, requiredChild root, requiredBag
    root, dense root, allKinds root, genericLists root, compactLists root, maps root,
    directory root, outer root, middle root, tree root, deep root, withBundle root, holder
    root, strictHolder root, flakyBox root, flakyNest root, odds root, fakes root, stamped
    root, innerStamp root, base root, derived root, grandDerived root, stampBase root,
    encodeOnly root, hasEncodeOnly root, twice root, hasTwice root, clash root, twoBases root,
    inheritsBroken root, zeroId root, escapeId root, zeroTwice root, badLong root, badOptLong
    root, badU32 root, badOptU32 root, badList root, badMap root, wrapper root]

/-- The schemas of all sample types, and the factories for proxies. -/
def environment (root : String) : Environment :=
  Environment.ofTypes (types root) interfaces

/-- The sample type of a short name. -/
def find? (root name : String) : Option TypeDecl :=
  (types root).find? fun decl => shortName decl.path = name

end TaggedParcel.Sample
