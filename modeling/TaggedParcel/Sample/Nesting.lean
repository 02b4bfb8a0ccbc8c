import TaggedParcel.Sample.Kinds

set_option relaxedAutoImplicit false
set_option autoImplicit false

/-!
# Sample types: nesting and ancestors

Here are types whose objects and values nest, types with refined kinds of values, and types that
inherit fields.
The full names of all types start with the same root.
-/

namespace TaggedParcel.Sample

variable (root : String)

/-! ## Nesting -/

/-- The outermost of three levels. -/
def outer : TypeDecl :=
  fresh (root ++ "Outer") none
    [.field 1 "middle" (.object (root ++ "Middle")) { nullable := true },
    .field 2 "tail" (plain .int) {}]

/-- The second of three levels. -/
def middle : TypeDecl :=
  fresh (root ++ "Middle") none
    [.field 1 "inner" (.object (root ++ "Point")) { nullable := true },
    .field 2 "gate" (plain .int) { versionGate := some 1 }]

/-- A type that mentions itself, through every kind of collection of objects. -/
def tree : TypeDecl :=
  fresh (root ++ "Tree") none
    [.field 1 "value" (plain .int) {},
    .field 2 "children" (.objectList (root ++ "Tree")) {},
    .field 3 "slots" (.objectArray (root ++ "Tree")) {},
    .field 4 "named" (.objectMap .string (root ++ "Tree")) {},
    .field 5 "tagged" (.objectList (root ++ "Tree")) { directEncoding := true }]

/-- Generic values to any depth. -/
def deep : TypeDecl :=
  fresh (root ++ "Deep") none
    [.field 1 "values" (.list .value) {},
    .field 2 "after" (plain .int) {},
    .field 3 "extras" (.map .string .value) {},
    .field 4 "bundle" (optional .bundle) { nullable := true }]

/-- Values that cannot always be written or read. -/
def flakyBox : TypeDecl :=
  fresh (root ++ "FlakyBox") none
    [.field 1 "first" (.value (.refined flaky) false) {},
    .field 2 "second" (.value (.refined flaky) false) { nullable := true },
    .field 3 "after" (plain .int) {}]

/-- Objects with fields that fail inside them. -/
def flakyNest : TypeDecl :=
  fresh (root ++ "FlakyNest") none
    [.field 1 "nested" (.object (root ++ "FlakyBox")) { nullable := true },
    .field 2 "items" (.objectList (root ++ "FlakyBox")) {},
    .field 3 "odd" (.list (.refined odd)) { directList := true }]

/-- Elements that change their kind when they are written. -/
def odds : TypeDecl :=
  fresh (root ++ "Odds") none
    [.field 1 "compact" (.list (.refined odd)) { directList := true },
    .field 2 "generic" (.list (.refined odd)) {},
    .field 3 "keyed" (.map (.refined odd) (.refined odd)) {},
    .field 4 "after" (plain .int) {}]

/-- Elements that declare themselves objects and are none. -/
def fakes : TypeDecl :=
  fresh (root ++ "Fakes") none
    [.field 1 "framed" (.list (.refined (fake root))) {},
    .field 2 "tagged" (.list (.refined (fake root))) { directEncoding := true },
    .field 3 "after" (plain .int) {}]

/-- Texts that remember the types they went through. -/
def stamped : TypeDecl :=
  fresh (root ++ "Stamped") (some "Outer$Stamp")
    [.field 1 "before" (.value (.refined stamp) false) {},
    .field 2 "child" (.object (root ++ "InnerStamp")) { nullable := true },
    .field 3 "children" (.objectList (root ++ "InnerStamp")) {},
    .field 4 "after" (.value (.refined stamp) false) {}]

/-- A text that remembers, one level down. -/
def innerStamp : TypeDecl :=
  fresh (root ++ "InnerStamp") none
    [.field 1 "stamp" (.value (.refined stamp) false) {}]

/-! ## Ancestors -/

/-- An ancestor. -/
def base : TypeDecl :=
  fresh (root ++ "Base") none
    [.field 1 "id" (plain .long) {},
    .field 2 "owner" (optional .string) { nullable := true }]

/-- A type with an ancestor. -/
def derived : TypeDecl :=
  fresh (root ++ "Derived") none
    [.inherit "base" (base root),
    .field 3 "scopes" (.list .string) {}]

/-- An ancestor that cannot be created itself. -/
def stampBase : TypeDecl :=
  abstract (root ++ "StampBase") none
    [.field 5 "stamp" (.value (.refined stamp) false) {},
    .field 6 "need" (optional .int) {},
    .field 7 "gated" (plain .short) { versionGate := some 3 }]

/-- A type with two ancestors, one of which has an ancestor of its own. -/
def grandDerived : TypeDecl :=
  fresh (root ++ "GrandDerived") none
    [.field 10 "own" (plain .int) {},
    .inherit "derived" (derived root),
    .inherit "stamp" (stampBase root)]

end TaggedParcel.Sample
