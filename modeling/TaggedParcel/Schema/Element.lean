import TaggedParcel.Schema.FieldValue
import TaggedParcel.Shape.Resolve
import TaggedParcel.Value.Sorted

set_option relaxedAutoImplicit false
set_option autoImplicit false

/-!
# Elements of lists and maps

The elements of a list and the keys and values of a map are generic values of a declared kind.
In lists of some kinds the elements are written without tags.

## Main definitions

* `ElementKind` — what an element may be declared to be.
* `RefinedElement` — a kind of element with a meaning of its own.
* `Write.list`, `Read.list` — the payload of a list, in the layout of its field.
* `Write.map`, `Read.map` — the payload of a map.
-/

namespace TaggedParcel

/-- A kind of element that is carried as generic values of other kinds. -/
structure RefinedElement where
  /-- The shape that an element of this kind declares. -/
  shape : Shape
  /-- What is written for an element. -/
  toValue : Value → Value
  /-- The element of what was read. -/
  ofValue : Value → Except FieldError Value

/-- What an element may be declared to be. -/
inductive ElementKind where
  | bool
  | byte
  | short
  | int
  | long
  | float
  | double
  | string
  | byteArray
  | intArray
  | longArray
  | stringArray
  | bundle
  | binder
  /-- A value of any kind. -/
  | value
  /-- A kind with a meaning of its own. -/
  | refined (kind : RefinedElement)

namespace ElementKind

/-- The shape that an element of this kind declares. -/
def shape : ElementKind → Shape
  | .bool => .bool
  | .byte => .byte
  | .short => .short
  | .int => .int
  | .long => .long
  | .float => .float
  | .double => .double
  | .string => .string
  | .byteArray => .array .byte
  | .intArray => .array .int
  | .longArray => .array .long
  | .stringArray => .array .string
  | .bundle => .bundle
  | .binder => .binder
  | .value => .value
  | .refined kind => kind.shape

/-- What is written for an element. -/
def toValue : ElementKind → Value → Value
  | .refined kind, v => kind.toValue v
  | _, v => v

/-- A value that has to be of the kind named `expected`, as `fits` says. -/
def expect (expected : String) (fits : Bool) (v : Value) : Except FieldError Value :=
  if fits then .ok v
  else if v.isNull then .error .unexpectedNull
  else .error (.typeMismatch expected v.kindName)

/-- The element of what was read. A null is refused, and so is a value of another kind. -/
def ofValue (kind : ElementKind) (v : Value) : Except FieldError Value :=
  match kind with
  | .bool => expect "bool" (v.tag = .bool) v
  | .byte => expect "byte" (v.tag = .byte) v
  | .short => expect "short" (v.tag = .short) v
  | .int => expect "int" (v.tag = .int) v
  | .long => expect "long" (v.tag = .long) v
  | .float => expect "float" (v.tag = .float) v
  | .double => expect "double" (v.tag = .double) v
  | .string => expect "string" (v.tag = .string) v
  | .byteArray => expect "byte array" (v.tag = .byteArray) v
  | .intArray => expect "int array" (v.tag = .intArray) v
  | .longArray => expect "long array" (v.tag = .longArray) v
  | .stringArray => expect "string array" (v.tag = .stringArray) v
  | .bundle => expect "bundle" (v.tag = .bundle) v
  | .binder => expect "binder" (v.tag = .binder) v
  | .value => .ok v
  | .refined kind => kind.ofValue v

end ElementKind

/-! ## Lists -/

/-- An element without its tag, in a list of the given layout. -/
def Write.compact (layout : Semantic) (v : Value) : Write FieldError Unit :=
  match layout, v with
  | .intList, .int n => Write.i32 n
  | .boolList, .bool b => Write.bool b
  | .longList, .long n => Write.i64 n
  | .floatList, .float x => Write.float x
  | .doubleList, .double x => Write.double x
  | .stringList, .string text => Write.string16 text
  | _, _ => throw (.typeMismatch layout.name v.kindName)

/-- An element without a tag, of a list of the given layout. -/
def Read.compact (layout : Semantic) : Read FieldError Value :=
  match layout with
  | .intList => do return .int (← Read.i32)
  | .boolList => do return .bool (← Read.bool)
  | .longList => do return .long (← Read.i64)
  | .floatList => do return .float (← Read.float)
  | .doubleList => do return .double (← Read.double)
  | .stringList => do return .string (← Read.required Read.string16)
  | _ => throw (.unsupported layout.name)

/-- The payload of a list: a count, and the elements in the layout of the field. -/
def Write.list (kind : ElementKind) (layout : Semantic) (maxDepth : Nat) (items : List Value) :
    Write FieldError Unit := do
  length items.length
  each
    (fun item =>
      if layout = .list then (kind.toValue item).write 0 maxDepth
      else compact layout (kind.toValue item))
    items

/-- The payload of a list. A null reads as the empty list. -/
def Read.list (kind : ElementKind) (layout : Semantic) (limits : Limits) :
    Read FieldError (List Value) := do
  let items ← arrayOf limits do
    let v ← if layout = .list then Value.read limits 0 else compact layout
    kind.ofValue v
  return items.getD []

/-! ## Maps -/

/-- The payload of a map: a count, and pairs of a key and a value. -/
def Write.map (keyKind valueKind : ElementKind) (maxDepth : Nat) (entries : List (Value × Value)) :
    Write FieldError Unit := do
  length entries.length
  each
    (fun entry => do
      (keyKind.toValue entry.1).write 0 maxDepth
      (valueKind.toValue entry.2).write 0 maxDepth)
    entries

/-- A generic value that has to be an element of a kind. -/
def Read.element (kind : ElementKind) (limits : Limits) : Read FieldError Value := do
  let v ← Value.read limits 0
  kind.ofValue v

/-- The payload of a map. A null reads as the empty map, and of the entries with one key the
last one stands. -/
def Read.map (keyKind valueKind : ElementKind) (limits : Limits) :
    Read FieldError (List (Value × Value)) := do
  let entries ← arrayOf limits do
    return (← element keyKind limits, ← element valueKind limits)
  return Sorted.ofList Value.compareKeys (entries.getD [])

end TaggedParcel
