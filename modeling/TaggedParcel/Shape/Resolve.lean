import TaggedParcel.Shape.Basic
import TaggedParcel.Text.Encoding

set_option relaxedAutoImplicit false
set_option autoImplicit false

/-!
# From shapes to layouts

A declared shape and the options of its field decide the layout of the payload. Not every shape
has one; which shapes do does not depend on the options. A type whose fields have no layout, or
clash, has no usable description.

## Main definitions

* `SchemaError` — why a type has no usable description.
* `SchemaError.message` — its wording.
* `FieldOptions` — how a field is to be carried.
* `Shape.checkGeneric` — the shapes that generic values can take.
* `Shape.resolve` — the layout of a field.
-/

namespace TaggedParcel

/-! ## Failures -/

/-- Why a type has no usable description. -/
inductive SchemaError where
  /-- Two fields share an id. -/
  | duplicateFieldId (type : String) (id : UInt16) (first second : String)
  /-- A declared shape has no layout. -/
  | unsupportedType (declared : Shape)
  /-- The type cannot be created, and so not decoded. -/
  | notConstructible (type : String)
  /-- A field has an id that no field may have. -/
  | reservedFieldId (type field : String) (id : UInt16)
  deriving DecidableEq, Repr

/-- The wording of a failure to describe a type. -/
def SchemaError.message : SchemaError → String
  | .duplicateFieldId type id first second =>
    s!"type {type} declares field id {id} twice ({first} and {second})"
  | .unsupportedType declared => s!"declared type {declared.text} has no semantic mapping"
  | .notConstructible type => s!"type {type} has no registered constructor"
  | .reservedFieldId type field id =>
    s!"field {field} of {type} uses the reserved id 0x{Hex.upper 4 id.toNat}"

/-! ## Layouts -/

/-- How a field is to be carried. -/
structure FieldOptions where
  /-- An absent value is legal. -/
  nullable : Bool := false
  /-- The elements of lists are written as generic values. -/
  directEncoding : Bool := false
  /-- Lists of numbers, truth values and texts are written without tags. -/
  directList : Bool := false
  /-- Integers above this are reported as newer than supported. -/
  versionGate : Option Int64 := none
  deriving DecidableEq, Repr, Inhabited

namespace Shape

/-- Refuses a shape that generic values cannot take, and names the part that is at fault. -/
def checkGeneric : Shape → Except SchemaError Unit
  | .bool | .byte | .short | .int | .long | .float | .double | .string => .ok ()
  | .bundle | .binder | .value => .ok ()
  | .array .byte | .array .int | .array .long | .array .string => .ok ()
  | .list element => element.checkGeneric
  | .map k v => do
    k.checkGeneric
    v.checkGeneric
  | shape => .error (.unsupportedType shape)

/-- The layout of an array, by its elements. -/
def arraySemantic? : Shape → Option Semantic
  | .byte => some .byteArray
  | .array .byte => some .byteArrayArray
  | .int => some .intArray
  | .float => some .floatArray
  | .string => some .stringArray
  | .object _ => some .objectArray
  | _ => none

/-- The layout without tags of a list, by its elements. -/
def compactSemantic? : Shape → Option Semantic
  | .int => some .intList
  | .bool => some .boolList
  | .long => some .longList
  | .float => some .floatList
  | .double => some .doubleList
  | .string => some .stringList
  | _ => none

/-- The layout of a list, by its elements, where tags are used if they have to be. -/
def listSemantic (element : Shape) (options : FieldOptions) : Except SchemaError Semantic :=
  match element with
  | .object _ => .ok (if options.directEncoding then .list else .objectList)
  | .string => .ok (if options.directEncoding then .list else .stringList)
  | element =>
    match element.checkGeneric with
    | .ok () => .ok .list
    | .error _ => .error (.unsupportedType (.list element))

/-- Refuses a shape that the values of a map cannot take: they may also be objects. -/
def checkMapValue : Shape → Except SchemaError Unit
  | .object _ => .ok ()
  | shape => shape.checkGeneric

/-- The layout of a field, or the shape that has none. -/
def resolve (declared : Shape) (options : FieldOptions) : Except SchemaError Semantic :=
  match declared with
  | .bool => .ok .bool
  | .byte => .ok .byte
  | .short => .ok .short
  | .int => .ok .int
  | .long => .ok .long
  | .float => .ok .float
  | .double => .ok .double
  | .string => .ok .string
  | .object _ => .ok .object
  | .bundle => .ok .bundle
  | .binder => .ok .binder
  | .interface _ => .ok .interface
  | .map k v => do
    k.checkGeneric
    v.checkMapValue
    return .map
  | .array element =>
    match element.arraySemantic? with
    | some semantic => .ok semantic
    | none => .error (.unsupportedType declared)
  | .list element =>
    match element.compactSemantic?, options.directList with
    | some semantic, true => .ok semantic
    | _, _ => element.listSemantic options
  | .value | .unsupported _ => .error (.unsupportedType declared)

end Shape

end TaggedParcel
