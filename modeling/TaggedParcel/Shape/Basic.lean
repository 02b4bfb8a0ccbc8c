set_option relaxedAutoImplicit false
set_option autoImplicit false

/-!
# Declared shapes and semantic kinds

A field declares the shape of what it holds. A described type is referred to by its full name.
What travels has one of a closed set of layouts, the semantic kinds.

## Main definitions

* `Shape` — what a field declares.
* `Shape.text` — a shape in messages.
* `Shape.elementHint` — the described type that a shape mentions.
* `Semantic` — the kinds of layouts that the payload of a field can have.
* `Semantic.fixedSize` — the payload width of the kinds that have one.
* `Semantic.code` — the number of a kind in fingerprints.
* `Semantic.name`, `Semantic.label` — its name in messages and in exports.
-/

namespace TaggedParcel

/-! ## Shapes -/

/-- What a field declares that it holds. -/
inductive Shape where
  | bool
  | byte
  | short
  | int
  | long
  | float
  | double
  | string
  | array (element : Shape)
  | list (element : Shape)
  | map (key value : Shape)
  /-- An object of the described type of this name. -/
  | object (type : String)
  | bundle
  | binder
  /-- A handle that becomes a proxy of this interface. -/
  | interface (descriptor : String)
  /-- A generic value. -/
  | value
  /-- Something that the format has no place for. -/
  | unsupported (name : String)
  deriving DecidableEq, Repr

namespace Shape

/-- A shape as messages write it. -/
def text : Shape → String
  | .bool => "bool"
  | .byte => "byte"
  | .short => "short"
  | .int => "int"
  | .long => "long"
  | .float => "float"
  | .double => "double"
  | .string => "string"
  | .array element => "array<" ++ element.text ++ ">"
  | .list element => "list<" ++ element.text ++ ">"
  | .map k v => "map<" ++ k.text ++ ", " ++ v.text ++ ">"
  | .object type => type
  | .bundle => "bundle"
  | .binder => "binder"
  | .interface descriptor => "interface " ++ descriptor
  | .value => "value"
  | .unsupported name => name

/-- The described type that a shape mentions: of a map, the one its values mention. -/
def elementHint : Shape → Option String
  | .object type => some type
  | .array element => element.elementHint
  | .list element => element.elementHint
  | .map _ v => v.elementHint
  | _ => none

end Shape

/-! ## Semantic kinds -/

/-- The layout of a field's payload. -/
inductive Semantic where
  | bool
  | byte
  | short
  | int
  | long
  | float
  | double
  | string
  | byteArray
  | byteArrayArray
  | intArray
  | floatArray
  | stringArray
  /-- An object. -/
  | object
  /-- An array of objects, any of which may be missing. -/
  | objectArray
  /-- A list of objects. -/
  | objectList
  | stringList
  | intList
  | boolList
  | longList
  | floatList
  | doubleList
  /-- A list of generic values. -/
  | list
  /-- Pairs of generic values. -/
  | map
  | bundle
  | binder
  /-- A handle that becomes a proxy. -/
  | interface
  deriving DecidableEq, Repr

namespace Semantic

/-- The width of a payload that always has the same one. -/
def fixedSize : Semantic → Option Nat
  | .bool | .byte | .short | .int | .float => some 4
  | .long | .double => some 8
  | _ => none

/-- Whether a payload always has the same width. -/
def isFixed (s : Semantic) : Bool :=
  s.fixedSize.isSome

/-- Whether a payload is an integer, which a version gate can watch. -/
def isInteger : Semantic → Bool
  | .byte | .short | .int | .long => true
  | _ => false

/-- The number of a kind: its place in the order of declaration. -/
def code (s : Semantic) : UInt8 :=
  UInt8.ofNat s.ctorIdx

/-- The name of a kind in messages. -/
def name : Semantic → String
  | .bool => "bool"
  | .byte => "byte"
  | .short => "short"
  | .int => "int"
  | .long => "long"
  | .float => "float"
  | .double => "double"
  | .string => "string"
  | .byteArray => "byte-array"
  | .byteArrayArray => "byte-array-array"
  | .intArray => "int-array"
  | .floatArray => "float-array"
  | .stringArray => "string-array"
  | .object => "object"
  | .objectArray => "object-array"
  | .objectList => "object-list"
  | .stringList => "string-list"
  | .intList => "int-list"
  | .boolList => "bool-list"
  | .longList => "long-list"
  | .floatList => "float-list"
  | .doubleList => "double-list"
  | .list => "list"
  | .map => "map"
  | .bundle => "bundle"
  | .binder => "binder"
  | .interface => "interface"

/-- The name of a kind in exports. -/
def label : Semantic → String
  | .bool => "Bool"
  | .byte => "Byte"
  | .short => "Short"
  | .int => "Int"
  | .long => "Long"
  | .float => "Float"
  | .double => "Double"
  | .string => "String"
  | .byteArray => "ByteArray"
  | .byteArrayArray => "ByteArrayArray"
  | .intArray => "IntArray"
  | .floatArray => "FloatArray"
  | .stringArray => "StringArray"
  | .object => "Object"
  | .objectArray => "ObjectArray"
  | .objectList => "ObjectList"
  | .stringList => "StringList"
  | .intList => "IntList"
  | .boolList => "BoolList"
  | .longList => "LongList"
  | .floatList => "FloatList"
  | .doubleList => "DoubleList"
  | .list => "List"
  | .map => "Map"
  | .bundle => "Bundle"
  | .binder => "Binder"
  | .interface => "Interface"

end Semantic

end TaggedParcel
