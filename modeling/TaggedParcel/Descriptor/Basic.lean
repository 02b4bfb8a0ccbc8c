import TaggedParcel.Binary.Blake3
import TaggedParcel.Shape.Resolve

set_option relaxedAutoImplicit false
set_option autoImplicit false

/-!
# Descriptors of types

A type descriptor is a set of fields, each under an id of its own. It is built from own fields
and the fields of ancestors, and building checks the ids.

A descriptor is also written as bytes, which are hashed. Texts carry their length and optional
parts a mark of their presence, so that no two descriptors give the same bytes.

## Main definitions

* `FieldDescriptor`, `FieldDescriptor.make` — a field with its layout.
* `TypeDescriptor` — the fields of a type, in ascending order of their ids.
* `DescriptorItem`, `TypeDescriptor.build` — the descriptor of own fields and ancestors, if the
  ids are sound.
* `TypeDescriptor.hashedBytes` — what is hashed.
* `TypeDescriptor.fingerprint` — the head of its hash.
-/

namespace TaggedParcel

/-- A field of a type. -/
structure FieldDescriptor where
  /-- What the field is known by in the bytes. -/
  id : UInt16
  /-- What the field is known by in messages. -/
  name : String
  /-- The layout of its payload. -/
  semantic : Semantic
  /-- What it declares that it holds. -/
  declared : Shape
  /-- The described type that its shape mentions. -/
  elementHint : Option String
  /-- How it is to be carried. -/
  options : FieldOptions
  deriving DecidableEq, Repr

namespace FieldDescriptor

/-- A field with the layout that its shape and options give. -/
def make (id : UInt16) (name : String) (declared : Shape) (options : FieldOptions) :
    Except SchemaError FieldDescriptor := do
  let semantic ← declared.resolve options
  return ⟨id, name, semantic, declared, declared.elementHint, options⟩

/-- The version gate that a value is above, if the field holds integers and has a gate. -/
def crossedGate? (field : FieldDescriptor) (found : Int64) : Option Int64 :=
  field.options.versionGate.filter fun gate => field.semantic.isInteger && gate < found

/-- Whether a value is above the field's version gate. -/
def exceedsGate (field : FieldDescriptor) (found : Int64) : Bool :=
  (field.crossedGate? found).isSome

end FieldDescriptor

/-- The fields of a type. -/
structure TypeDescriptor where
  /-- What the type is known by in messages. -/
  name : String
  /-- The fields, in ascending order of their ids. -/
  fields : List FieldDescriptor
  /-- Whether a fresh instance can be created. -/
  constructible : Bool
  deriving DecidableEq, Repr

namespace TypeDescriptor

/-- Ids that no field may have: zero, and the one that would look like an escape. -/
def isReserved (id : UInt16) : Bool :=
  id == 0 || id == 0xFFFF

/-- The field of an id among given fields. -/
def find? (fields : List FieldDescriptor) (id : UInt16) : Option FieldDescriptor :=
  fields.find? fun field => field.id == id

/-- The field of an id. -/
def field? (d : TypeDescriptor) (id : UInt16) : Option FieldDescriptor :=
  find? d.fields id

/-- Puts a field in front of the first one with a greater id. -/
def insertById (field : FieldDescriptor) : List FieldDescriptor → List FieldDescriptor
  | [] => [field]
  | other :: rest =>
    if field.id < other.id then field :: other :: rest else other :: insertById field rest

/-- Adds one field to those of a type. A reserved id is refused before a repeated one. -/
def addField (name : String) (fields : List FieldDescriptor) (field : FieldDescriptor) :
    Except SchemaError (List FieldDescriptor) :=
  if isReserved field.id then
    .error (.reservedFieldId name field.name field.id)
  else
    match find? fields field.id with
    | some first => .error (.duplicateFieldId name field.id first.name field.name)
    | none => .ok (insertById field fields)

end TypeDescriptor

/-- What a descriptor is built from. -/
inductive DescriptorItem where
  /-- A field of the type's own. -/
  | own (field : FieldDescriptor)
  /-- The fields of an ancestor. -/
  | inherited (ancestor : TypeDescriptor)
  deriving DecidableEq, Repr

/-- The fields that an item adds. -/
def DescriptorItem.fields : DescriptorItem → List FieldDescriptor
  | .own field => [field]
  | .inherited ancestor => ancestor.fields

/-- The descriptor of a list of items in any order. The first field with an id that it may not
have is refused. -/
def TypeDescriptor.build (name : String) (constructible : Bool) (items : List DescriptorItem) :
    Except SchemaError TypeDescriptor := do
  let fields ← (items.flatMap DescriptorItem.fields).foldlM (TypeDescriptor.addField name) []
  return ⟨name, fields, constructible⟩

/-! ## Fingerprints -/

/-- A text in front of which its length in UTF-8 stands. -/
def hashedText (text : String) : List UInt8 :=
  LittleEndian.digits 4 (min text.utf8ByteSize (UInt32.size - 1)) ++ text.toUTF8.data.toList

/-- An optional part in front of which a mark of its presence stands. -/
def hashedOption {α : Type} (part : α → List UInt8) : Option α → List UInt8
  | none => [0]
  | some a => 1 :: part a

/-- The options of a field that are true or false, as one byte. -/
def FieldOptions.flagBits (options : FieldOptions) : UInt8 :=
  options.nullable.toUInt8 ||| (options.directEncoding.toUInt8 <<< 1) |||
    (options.directList.toUInt8 <<< 2)

/-- What is hashed of a field. -/
def FieldDescriptor.hashedBytes (field : FieldDescriptor) : List UInt8 :=
  LittleEndian.digits 2 field.id.toNat ++
    hashedText field.name ++
    [field.semantic.code, field.options.flagBits] ++
    hashedOption (fun gate => LittleEndian.digits 8 gate.toUInt64.toNat)
      field.options.versionGate ++
    hashedOption hashedText field.elementHint

namespace TypeDescriptor

/-- What is hashed of a type: its name, the number of its fields, and the fields in ascending
order of their ids. -/
def hashedBytes (d : TypeDescriptor) : List UInt8 :=
  hashedText d.name ++
    LittleEndian.digits 4 (min d.fields.length (UInt32.size - 1)) ++
    d.fields.flatMap FieldDescriptor.hashedBytes

/-- A number that tells descriptors apart. -/
def fingerprint (d : TypeDescriptor) : UInt64 :=
  Blake3.head64 d.hashedBytes

end TypeDescriptor

end TaggedParcel
