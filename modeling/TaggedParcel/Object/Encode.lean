import TaggedParcel.Frame.Header
import TaggedParcel.Object.Diagnostic
import TaggedParcel.Schema.Basic

set_option relaxedAutoImplicit false
set_option autoImplicit false

/-!
# Writing objects

An object is a frame of its fields in ascending order of their ids. A field that cannot be
written is taken back and left out; its siblings are written all the same. If the whole fails,
nothing is left behind.

## Main definitions

* `Encode` — computations that extend a writer and a report.
* `encodeObject` — an object inside a frame or on its own.
* `encode` — an object at the position of a writer, with a report.
* `toBytes` — the bytes of an object.
-/

namespace TaggedParcel

/-- What writing an object has done so far. -/
structure EncodeState where
  /-- The bytes written. -/
  writer : Writer
  /-- What is worth telling, last first. -/
  events : List Diagnostic

/-- A computation that extends a writer and a report. -/
abbrev Encode (α : Type) : Type :=
  EStateM CodecError EncodeState α

namespace Encode

variable {α : Type}

/-- A step on the writer, with failures renamed. -/
def onWriter {ε : Type} (rename : ε → CodecError) (step : Write ε α) : Encode α :=
  fun ⟨writer, events⟩ =>
    match step writer with
    | .ok a writer => .ok a ⟨writer, events⟩
    | .error e writer => .error (rename e) ⟨writer, events⟩

/-- A step inside a payload. -/
def payload (step : Write FieldError α) : Encode α :=
  onWriter .field step

/-- A step on frames. -/
def frame (step : Write FrameError α) : Encode α :=
  onWriter .ofFrame step

/-- The present position. (Kept out of line for the same reason as that of a writer.) -/
@[noinline]
def position : Encode Nat := fun s => .ok s.writer.position s

/-- The schema of a type. -/
def schema (env : Environment) (type : String) : Encode Schema :=
  match env.schemaOf type with
  | .ok s => pure s
  | .error e => throw (.schema e)

/-- Writes the items of a list in order. -/
def each (write : α → Encode Unit) : List α → Encode Unit
  | [] => fun s => .ok () s
  | a :: rest => fun s =>
    match write a s with
    | .ok () s => each write rest s
    | .error e s => .error e s

/-- A field whose size is known once its payload is written. -/
def delimited (id : UInt16) (body : Encode Unit) : Encode Unit := do
  let mark ← frame (Write.beginField id)
  body
  frame (Write.finishField mark)

/-- Writes a field. Unless its failure is fatal, a field that fails is taken back and reported,
and writing goes on. -/
def orOmit (type : String) (field : FieldDescriptor) (body : Encode Unit) : Encode Unit := do
  let start ← position
  fun s =>
    match body s with
    | .ok () s => .ok () s
    | .error e ⟨writer, events⟩ =>
      if e.isFatal then
        .error e ⟨writer, events⟩
      else
        .ok () ⟨writer.truncate start,
          .fieldOmitted type field.name field.id e.message :: events⟩

end Encode

/-- How deep objects, and values inside a field, may nest when they are written. -/
def encodeDepth : Nat :=
  Limits.standard.maxDepth

/-- Writes an object of the type of a full name. -/
abbrev ObjectWriter : Type :=
  String → Object → Encode Unit

namespace Encode

/-- A field without a value. It has to be nullable; in a field of fixed width nothing at all is
written, in others a null. -/
def absent (type : String) (field : FieldDescriptor) : Encode Unit :=
  if !field.options.nullable then
    throw (.missingRequiredField type field.name)
  else if field.semantic.isFixed then
    pure ()
  else
    payload (Write.nullField field.id)

/-- A field with a single value. -/
def single (type : String) (field : FieldDescriptor) (kind : ValueKind) (v : FieldValue) :
    Encode Unit :=
  if kind.isAbsent v then
    absent type field
  else
    match field.semantic.fixedSize with
    | some size => do
      frame (Write.fieldHeader field.id size)
      payload (kind.write type encodeDepth v)
    | none => delimited field.id (payload (kind.write type encodeDepth v))

/-- An object behind a word with its size. -/
def element (nested : ObjectWriter) (type : String) (o : Object) : Encode Unit := do
  let slot ← payload Write.reserve
  nested type o
  payload do
    let stop ← Write.position
    Write.patchSize slot (stop - slot.stop)

/-- An object as a generic value: a tag, the name of its type, and its frame. -/
def tagged (nested : ObjectWriter) (type name : String) (o : Object) : Encode Unit := do
  payload do
    Write.i32 ValueTag.parcelable.code
    Write.string16 name
  nested type o

/-- An element of an array in which objects may be missing: then its size is zero. -/
def elementOrNull (nested : ObjectWriter) (type : String) : Option Object → Encode Unit
  | some o => element nested type o
  | none => payload (Write.i32 0)

/-- The payload of a list of objects, in the layout of the field. -/
def objectList (env : Environment) (nested : ObjectWriter) (layout : Semantic) (type : String)
    (items : List Object) : Encode Unit := do
  payload (Write.length items.length)
  if layout = .list then
    let schema ← schema env type
    each (tagged nested type schema.name) items
  else
    each (element nested type) items

/-- A map to objects. -/
def objectMap (env : Environment) (nested : ObjectWriter) (field : FieldDescriptor)
    (key : ElementKind) (type : String) (entries : List (Value × Object)) : Encode Unit := do
  let schema ← schema env type
  delimited field.id do
    payload (Write.length entries.length)
    each
      (fun entry => do
        payload ((key.toValue entry.1).write 0 encodeDepth)
        tagged nested type schema.name entry.2)
      entries

/-- A field of an object of the type named `type`, with `nested` for the objects in it. A member
has to be what its field was registered to hold. -/
def field (env : Environment) (nested : ObjectWriter) (type : String) (field : FieldDescriptor) :
    FieldKind → Member → Encode Unit
  | .value kind _, .value (some v) => single type field kind v
  | .value _ _, .value none => absent type field
  | .list kind, .list items =>
    delimited field.id (payload (Write.list kind field.semantic encodeDepth items))
  | .map k v, .map entries => delimited field.id (payload (Write.map k v encodeDepth entries))
  | .object _, .object none => absent type field
  | .object inner, .object (some o) => delimited field.id (nested inner o)
  | .objectArray inner, .objectArray items =>
    delimited field.id do
      payload (Write.length items.length)
      each (elementOrNull nested inner) items
  | .objectList inner, .objectList items =>
    delimited field.id (objectList env nested field.semantic inner items)
  | .objectMap k inner, .objectMap entries => objectMap env nested field k inner entries
  | .interface _, .interface none => absent type field
  | .interface _, .interface (some handle) => delimited field.id (payload handle.write)
  | kind, member => throw (.field (.typeMismatch kind.memberName member.kindName))

/-- A field of an object, as the object has it. -/
def member (env : Environment) (nested : ObjectWriter) (type : String) (o : Object)
    (entry : FieldDescriptor × FieldKind) : Encode Unit :=
  match o.get? entry.1.id with
  | some member => field env nested type entry.1 entry.2 member
  | none => throw (.field (.typeMismatch entry.2.memberName "nothing"))

/-- The frame of an object, with `nested` for the objects in it. -/
def objectFrame (env : Environment) (nested : ObjectWriter) (schema : Schema) (o : Object) :
    Encode Unit := do
  let mark ← frame Write.beginObject
  each (fun entry => orOmit schema.name entry.1 (member env nested schema.name o entry))
    schema.entries
  frame (Write.finishObject mark)

end Encode

/-- Writes an object, where `levels` more levels of nesting are left. -/
def encodeObject (env : Environment) : (levels : Nat) → ObjectWriter
  | 0, type, _ => do
    let _ ← Encode.schema env type
    throw (.depthExceeded (encodeDepth + 1) encodeDepth)
  | levels + 1, type, o => do
    let schema ← Encode.schema env type
    Encode.objectFrame env (encodeObject env levels) schema o

/-- Writes an object at the position of a writer. The writer is left as it was if this fails. -/
def encode (env : Environment) (type : String) (o : Object) (w : Writer) :
    Except CodecError Report × Writer :=
  let start := w.position
  match encodeObject env encodeDepth type o ⟨w, []⟩ with
  | .ok () s => (.ok s.events.reverse, s.writer)
  | .error e s => (.error e, s.writer.truncate start)

/-- The bytes of an object. -/
def toBytes (env : Environment) (type : String) (o : Object) :
    Except CodecError (Array UInt8) :=
  match encode env type o .empty with
  | (.ok _, w) => .ok w.bytes
  | (.error e, _) => .error e

end TaggedParcel
