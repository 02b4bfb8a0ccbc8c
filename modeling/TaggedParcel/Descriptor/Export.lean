import TaggedParcel.Descriptor.Basic
import TaggedParcel.Text.Json

set_option relaxedAutoImplicit false
set_option autoImplicit false

/-!
# Exports of descriptors

## Main definitions

* `TypeDescriptor.toJson` — a descriptor as a document, members in their natural order.
* `TypeDescriptor.exported` — a descriptor with its fingerprint, members in ascending order.
-/

namespace TaggedParcel

/-- The document of an optional part. -/
def Json.ofOption {α : Type} (part : α → Json) : Option α → Json
  | none => .null
  | some a => part a

/-- The document that stands for a described type. -/
def typeReference (name : String) : Json :=
  .obj [("name", .str name)]

/-- The document of a shape. -/
def Shape.toJson : Shape → Json
  | .bool => .str "Bool"
  | .byte => .str "Byte"
  | .short => .str "Short"
  | .int => .str "Int"
  | .long => .str "Long"
  | .float => .str "Float"
  | .double => .str "Double"
  | .string => .str "String"
  | .array element => .obj [("Array", element.toJson)]
  | .list element => .obj [("List", element.toJson)]
  | .map k v => .obj [("Map", .arr [k.toJson, v.toJson])]
  | .object type => .obj [("Object", typeReference type)]
  | .bundle => .str "Bundle"
  | .binder => .str "Binder"
  | .interface descriptor => .obj [("Interface", .str descriptor)]
  | .value => .str "Value"
  | .unsupported name => .obj [("Unsupported", .str name)]

/-- The document of a field's options. -/
def FieldOptions.toJson (options : FieldOptions) : Json :=
  .obj [
    ("nullable", .bool options.nullable),
    ("direct_encoding", .bool options.directEncoding),
    ("direct_list", .bool options.directList),
    ("version_gate", .ofOption (fun gate => .num gate.toInt) options.versionGate)]

/-- The document of a field. -/
def FieldDescriptor.toJson (field : FieldDescriptor) : Json :=
  .obj [
    ("id", .num field.id.toNat),
    ("name", .str field.name),
    ("semantic", .str field.semantic.label),
    ("declared", field.declared.toJson),
    ("element_hint", .ofOption typeReference field.elementHint),
    ("options", field.options.toJson)]

namespace TypeDescriptor

/-- The document of a type. -/
def toJson (d : TypeDescriptor) : Json :=
  .obj [
    ("name", .str d.name),
    ("fields", .obj (d.fields.map fun field => (toString field.id.toNat, field.toJson))),
    ("default_constructible", .bool d.constructible)]

/-- The fingerprint in sixteen hexadecimal digits. -/
def fingerprintText (d : TypeDescriptor) : String :=
  Hex.lower 16 d.fingerprint.toNat

/-- The document of a type with its fingerprint, members in ascending order. -/
def exported (d : TypeDescriptor) : Json :=
  (Json.obj [("fingerprint", .str d.fingerprintText), ("descriptor", d.toJson)]).sortKeys

end TypeDescriptor

end TaggedParcel
