set_option relaxedAutoImplicit false
set_option autoImplicit false

/-!
# Tags of generic values

A generic value is written behind a word that says what kind of value follows. Not every word
is a tag.

## Main definitions

* `ValueTag` — the kinds.
* `ValueTag.code`, `ValueTag.ofCode?` — their words.
* `UnknownTag` — a word that is no tag.

## Main results

* `ValueTag.ofCode?_code` — every tag is read back from its word.
-/

namespace TaggedParcel

/-- What kind of value follows. -/
inductive ValueTag where
  | null
  | string
  | int
  | map
  | bundle
  | parcelable
  | short
  | long
  | float
  | double
  | bool
  | list
  | byteArray
  | stringArray
  | binder
  | intArray
  | longArray
  | byte
  deriving DecidableEq, Repr

namespace ValueTag

/-- Every tag, in ascending order of its word. -/
def all : List ValueTag :=
  [.null, .string, .int, .map, .bundle, .parcelable, .short, .long, .float, .double, .bool,
    .list, .byteArray, .stringArray, .binder, .intArray, .longArray, .byte]

/-- The word of a tag. -/
def code : ValueTag → Int32
  | .null => -1
  | .string => 0
  | .int => 1
  | .map => 2
  | .bundle => 3
  | .parcelable => 4
  | .short => 5
  | .long => 6
  | .float => 7
  | .double => 8
  | .bool => 9
  | .list => 11
  | .byteArray => 13
  | .stringArray => 14
  | .binder => 15
  | .intArray => 18
  | .longArray => 19
  | .byte => 20

/-- The name of a tag. -/
def name : ValueTag → String
  | .null => "Null"
  | .string => "String"
  | .int => "Int"
  | .map => "Map"
  | .bundle => "Bundle"
  | .parcelable => "Parcelable"
  | .short => "Short"
  | .long => "Long"
  | .float => "Float"
  | .double => "Double"
  | .bool => "Bool"
  | .list => "List"
  | .byteArray => "ByteArray"
  | .stringArray => "StringArray"
  | .binder => "Binder"
  | .intArray => "IntArray"
  | .longArray => "LongArray"
  | .byte => "Byte"

/-- The tag of a word, if there is one. -/
def ofCode? (code : Int32) : Option ValueTag :=
  all.find? fun tag => tag.code == code

/-- A tag is told from its code. -/
theorem ofCode?_code (tag : ValueTag) : ofCode? tag.code = some tag := by
  cases tag <;> rfl

end ValueTag

/-- A word that is no tag. -/
structure UnknownTag where
  /-- The word. -/
  code : Int32
  deriving DecidableEq, Repr

/-- The wording of an unknown tag. -/
def UnknownTag.message (e : UnknownTag) : String :=
  s!"unknown value tag: {e.code}"

/-- The tag of a word. -/
def ValueTag.parse (code : Int32) : Except UnknownTag ValueTag :=
  match ofCode? code with
  | some tag => .ok tag
  | none => .error ⟨code⟩

end TaggedParcel
