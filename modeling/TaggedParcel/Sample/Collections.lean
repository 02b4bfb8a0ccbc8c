import TaggedParcel.Sample.Kinds

set_option relaxedAutoImplicit false
set_option autoImplicit false

/-!
# Sample types: collections

Here are types with arrays, lists, maps, bundles and interfaces.
The full names of all types start with the same root.
-/

namespace TaggedParcel.Sample

/-- A child with nothing in it but perhaps a text and a number. -/
def childObject (label : String) (weight : Int32) : Object :=
  ⟨[(1, .value (some (.string label))), (2, .value (some (.int weight)))]⟩

/-- What a fresh dense object holds. -/
def denseInitial : List (UInt16 × Member) :=
  [(1, .value (some (.byteArray #[9]))),
    (2, .value (some (.byteArrayArray [#[1], #[]]))),
    (3, .value (some (.intArray [7]))),
    (4, .value (some (.floatArray [⟨0x3FC00000⟩]))),
    (5, .value (some (.stringArray ["seed"]))),
    (6, .value (some (.string "seed"))),
    (7, .value (some (.bundle [("seed", .int 1)]))),
    (8, .value (some (.binder ⟨1, 2, 3, 4⟩))),
    (9, .list [.string "seed"]),
    (10, .list [.int 5]),
    (11, .map [(.string "seed", .bool true)]),
    (12, .object (some (childObject "seed" 1))),
    (13, .objectArray [none]),
    (14, .objectList [childObject "" 0]),
    (15, .objectMap [(.string "seed", childObject "" 0)]),
    (16, .value (some (.int 42))),
    (17, .value (some (.int 6))),
    (18, .interface (some ⟨5, 6, 7, 8⟩))]

variable (root : String)

/-- Every kind of collection and value, none of them empty in a fresh instance. -/
def dense : TypeDecl :=
  filled (root ++ "Dense") none
    [.field 1 "bytes" (plain .byteArray) {},
    .field 2 "chunks" (plain .byteArrayArray) {},
    .field 3 "ints" (plain .intArray) {},
    .field 4 "floats" (plain .floatArray) {},
    .field 5 "strings" (plain .stringArray) {},
    .field 6 "text" (plain .string) {},
    .field 7 "bundle" (plain .bundle) {},
    .field 8 "binder" (plain .binder) {},
    .field 9 "names" (.list .string) {},
    .field 10 "values" (.list .value) {},
    .field 11 "extras" (.map .string .value) {},
    .field 12 "child" (.object (root ++ "Child")) { nullable := true },
    .field 13 "children" (.objectArray (root ++ "Child")) {},
    .field 14 "child_list" (.objectList (root ++ "Child")) {},
    .field 15 "named" (.objectMap .string (root ++ "Child")) {},
    .field 16 "int" (plain .int) {},
    .field 17 "maybe" (optional .int) { nullable := true },
    .field 18 "remote" (.interface callbacks) { nullable := true }]
    denseInitial

/-- One field of every semantic kind. -/
def allKinds : TypeDecl :=
  fresh (root ++ "AllKinds") none
    [.field 1 "flag" (plain .bool) {},
    .field 2 "byte" (plain .byte) {},
    .field 3 "short" (plain .short) {},
    .field 4 "int" (plain .int) {},
    .field 5 "long" (plain .long) {},
    .field 6 "float" (plain .float) {},
    .field 7 "double" (plain .double) {},
    .field 8 "text" (plain .string) {},
    .field 9 "bytes" (plain .byteArray) {},
    .field 10 "chunks" (plain .byteArrayArray) {},
    .field 11 "ints" (plain .intArray) {},
    .field 12 "floats" (plain .floatArray) {},
    .field 13 "strings" (plain .stringArray) {},
    .field 14 "child" (.object (root ++ "Child")) { nullable := true },
    .field 15 "children" (.objectArray (root ++ "Child")) {},
    .field 16 "child_list" (.objectList (root ++ "Child")) {},
    .field 17 "names" (.list .string) {},
    .field 18 "int_list" (.list .int) { directList := true },
    .field 19 "bool_list" (.list .bool) { directList := true },
    .field 20 "long_list" (.list .long) { directList := true },
    .field 21 "float_list" (.list .float) { directList := true },
    .field 22 "double_list" (.list .double) { directList := true },
    .field 23 "values" (.list .value) {},
    .field 24 "extras" (.map .string .value) {},
    .field 25 "bundle" (plain .bundle) {},
    .field 26 "binder" (plain .binder) {},
    .field 27 "callbacks" (.interface callbacks) { nullable := true },
    .field 28 "generic_children" (.objectList (root ++ "Child")) { directEncoding := true }]

/-- Lists of every kind of element, with tags where the kind needs them. -/
def genericLists : TypeDecl :=
  fresh (root ++ "GenericLists") none
    [.field 1 "bools" (.list .bool) {},
    .field 2 "bytes" (.list .byte) {},
    .field 3 "shorts" (.list .short) {},
    .field 4 "ints" (.list .int) {},
    .field 5 "longs" (.list .long) {},
    .field 6 "floats" (.list .float) {},
    .field 7 "doubles" (.list .double) {},
    .field 8 "strings" (.list .string) { directEncoding := true },
    .field 9 "blobs" (.list .byteArray) {},
    .field 10 "int_arrays" (.list .intArray) {},
    .field 11 "long_arrays" (.list .longArray) {},
    .field 12 "string_arrays" (.list .stringArray) {},
    .field 13 "bundles" (.list .bundle) {},
    .field 14 "binders" (.list .binder) {},
    .field 15 "values" (.list .value) {}]

/-- Lists without tags, where their elements allow it. -/
def compactLists : TypeDecl :=
  fresh (root ++ "CompactLists") none
    [.field 1 "ints" (.list .int) { directList := true },
    .field 2 "bools" (.list .bool) { directList := true },
    .field 3 "longs" (.list .long) { directList := true },
    .field 4 "floats" (.list .float) { directList := true },
    .field 5 "doubles" (.list .double) { directList := true },
    .field 6 "strings" (.list .string) { directList := true },
    .field 7 "both" (.list .string) { directEncoding := true, directList := true },
    .field 8 "shorts" (.list .short) { directList := true },
    .field 9 "values" (.list .value) { directList := true }]

/-- Maps with every kind of key. -/
def maps : TypeDecl :=
  fresh (root ++ "Maps") none
    [.field 1 "by_name" (.map .string .value) {},
    .field 2 "by_int" (.map .int .string) {},
    .field 3 "by_byte" (.map .byte .long) {},
    .field 4 "by_bool" (.map .bool .double) {},
    .field 5 "by_blob" (.map .byteArray .bundle) {},
    .field 6 "by_ints" (.map .intArray .binder) {},
    .field 7 "by_long" (.map .long .longArray) {},
    .field 8 "by_strings" (.map .stringArray .float) {},
    .field 9 "by_short" (.map .short .stringArray) {}]

/-- Maps to objects. -/
def directory : TypeDecl :=
  fresh (root ++ "Directory") none
    [.field 1 "entries" (.objectMap .string (root ++ "Child")) {},
    .field 2 "numbered" (.objectMap .int (root ++ "Point")) {},
    .field 3 "after" (plain .int) {}]

/-- Bundles, one of which may be absent. -/
def withBundle : TypeDecl :=
  fresh (root ++ "WithBundle") none
    [.field 1 "extras" (optional .bundle) { nullable := true },
    .field 2 "after" (plain .int) {},
    .field 3 "strict" (plain .bundle) {}]

/-- An interface that nothing makes proxies for. -/
def holder : TypeDecl :=
  fresh (root ++ "Holder") none
    [.field 1 "remote" (.interface unregistered) { nullable := true },
    .field 2 "tag" (plain .int) {}]

/-- An interface that must be there. -/
def strictHolder : TypeDecl :=
  fresh (root ++ "StrictHolder") none
    [.field 1 "remote" (.interface callbacks) {},
    .field 2 "tag" (plain .int) {}]

end TaggedParcel.Sample
