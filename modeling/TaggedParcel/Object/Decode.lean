import TaggedParcel.Frame.Header
import TaggedParcel.Object.Diagnostic
import TaggedParcel.Schema.Basic

set_option relaxedAutoImplicit false
set_option autoImplicit false

/-!
# Reading objects

Reading fills a fresh instance from the fields of a frame, in the order of the bytes. A field
that the type does not have is passed over, and so is one that cannot be read; either way
reading goes on where the field's header says it ends.

## Main definitions

* `Decode` — computations that move a reader and extend a report.
* `decodeObject` — an object inside a frame or on its own.
* `decode` — an object at the position of a reader, with a report.
* `ofBytes` — the object at the start of some bytes.
-/

namespace TaggedParcel

/-- What reading an object has done so far. -/
structure DecodeState where
  /-- Where reading stands. -/
  reader : Reader
  /-- What is worth telling, last first. -/
  events : List Diagnostic

/-- A computation that moves a reader and extends a report. -/
abbrev Decode (α : Type) : Type :=
  EStateM CodecError DecodeState α

namespace Decode

variable {α : Type}

/-- A step on the reader, with failures renamed. -/
def onReader {ε : Type} (rename : ε → CodecError) (step : Read ε α) : Decode α :=
  fun ⟨reader, events⟩ =>
    match step reader with
    | .ok a reader => .ok a ⟨reader, events⟩
    | .error e reader => .error (rename e) ⟨reader, events⟩

/-- A step inside a payload. -/
def payload (step : Read FieldError α) : Decode α :=
  onReader .field step

/-- A step on frames. -/
def frame (step : Read FrameError α) : Decode α :=
  onReader .ofFrame step

/-- A result that may be the failure to describe a type. -/
def described (result : Except SchemaError α) : Decode α :=
  match result with
  | .ok a => pure a
  | .error e => throw (.schema e)

/-- Adds to the report. -/
def tell (event : Diagnostic) : Decode Unit :=
  modify fun s => { s with events := event :: s.events }

/-- The present position. -/
def position : Decode Nat := fun s => .ok s.reader.pos s

/-- Moves to a position before the limit. -/
def seek (position : Nat) : Decode Unit :=
  payload (Read.seek position)

/-- Runs a block that may not read across `stop`. Whatever limit was in force is in force again
afterwards. -/
def within (stop : Nat) (block : Decode α) : Decode α := fun s =>
  if stop > s.reader.limit then
    .error (.field (.buffer (.limitExceeded stop s.reader.limit))) s
  else if stop < s.reader.pos then
    .error (.field (.buffer (.positionOutOfBounds s.reader.pos stop))) s
  else
    match block { s with reader := { s.reader with limit := stop } } with
    | .ok a s' => .ok a { s' with reader := { s'.reader with limit := s.reader.limit } }
    | .error e s' => .error e { s' with reader := { s'.reader with limit := s.reader.limit } }

/-- Repeats a step `count` times and lists the answers in order. -/
def times (count : Nat) (step : Decode α) : Decode (List α) :=
  go count []
where
  /-- Collects answers, last first. -/
  go : Nat → List α → Decode (List α)
    | 0, done => fun s => .ok done.reverse s
    | count + 1, done => fun s =>
      match step s with
      | .ok a s => go count (a :: done) s
      | .error e s => .error e s

end Decode

/-- Reads an object of the type of a full name. -/
abbrev ObjectReader : Type :=
  String → Decode Object

namespace Decode

variable {α : Type}

/-- The value of a single field: of its payload, or the one that a null stands for. -/
def single (type : String) (limits : Limits) (header : FieldHeader) (field : FieldDescriptor)
    (kind : ValueKind) (optional : Bool) : Read FieldError (Option FieldValue) := do
  let ofNull : Read FieldError (Option FieldValue) :=
    if optional then return none
    else match kind.ofNull? with
      | some v => return some v
      | none => throw .unexpectedNull
  if header.isNull then
    ofNull
  else
    match field.semantic.fixedSize with
    | some expected =>
      if header.size ≠ expected then
        throw (.sizeMismatch expected header.size)
    | none => pure ()
    match ← kind.read type limits with
    | some v => return some v
    | none => ofNull

/-- Tells about an integer above the version gate of its field. -/
def watchGate (type : String) (field : FieldDescriptor) (kind : ValueKind)
    (v : Option FieldValue) : Decode Unit :=
  match v.bind kind.gateNumber? with
  | none => pure ()
  | some found =>
    match field.crossedGate? found with
    | none => pure ()
    | some gate => tell (.versionGate type field.name gate found)

/-- An object behind a word with its size. A size of zero stands for a missing object. -/
def element (nested : ObjectReader) (type : String) : Decode (Option Object) := do
  let size ← payload Read.u32
  if size = 0 then
    return none
  else
    let stop := (← position) + size.toNat
    let o ← within stop (nested type)
    seek stop
    return some o

/-- An object as a generic value. The name in front of it does not matter. -/
def tagged (nested : ObjectReader) (type : String) : Decode (Option Object) := do
  let tag ← payload do ValueTag.parse (← Read.i32)
  match tag with
  | .null => return none
  | .parcelable =>
    let _ ← payload Read.string16
    return some (← nested type)
  | _ => throw (.field (.unsupported "a non-parcelable value where an object was expected"))

/-- An object that must not be missing. -/
def required (o : Decode (Option Object)) : Decode Object := do
  match ← o with
  | some o => return o
  | none => throw (.field .unexpectedNull)

/-- A counted collection, with `item` for each of its items. A null reads as empty, whether it
is the payload that is null or the count. -/
def collection (limits : Limits) (header : FieldHeader) (item : Decode α) : Decode (List α) :=
  if header.isNull then
    return []
  else do
    match ← payload (Read.count limits) with
    | none => return []
    | some count => times count item

/-- A handle and the proxy made from it. -/
def interface (env : Environment) (proxy : Proxy) : Read FieldError BinderHandle := do
  let handle ← BinderHandle.read
  match env.interfaces.resolve? proxy handle with
  | some interface => return interface.handle
  | none => throw (.missingFactory proxy.descriptor)

/-- What a field of an object of the type named `type` holds, with `nested` for the objects in
it. -/
def field (env : Environment) (limits : Limits) (nested : ObjectReader) (type : String)
    (header : FieldHeader) (field : FieldDescriptor) : FieldKind → Decode Member
  | .value kind optional => do
    let v ← payload (single type limits header field kind optional)
    watchGate type field kind v
    return .value v
  | .list kind =>
    if header.isNull then return .list []
    else return .list (← payload (Read.list kind field.semantic limits))
  | .map k v =>
    if header.isNull then return .map []
    else return .map (← payload (Read.map k v limits))
  | .object inner =>
    if header.isNull then return .object none
    else return .object (some (← nested inner))
  | .objectArray inner =>
    return .objectArray (← collection limits header (element nested inner))
  | .objectList inner =>
    return .objectList (← collection limits header (required
      (if field.semantic = .list then tagged nested inner else element nested inner)))
  | .objectMap k inner => do
    let entries ← collection limits header do
      let key ← payload (Read.element k limits)
      let o ← required (tagged nested inner)
      return (key, o)
    return .objectMap (Sorted.ofList Value.compareKeys entries)
  | .interface proxy =>
    if header.isNull then return .interface none
    else return .interface (some (← payload (interface env proxy)))

/-- Reads a member into an object. Unless its failure is fatal, a field that fails leaves the
object as it was and is reported. -/
def orSkip (type : String) (field : FieldDescriptor) (o : Object) (body : Decode Member) :
    Decode Object := fun s =>
  match body s with
  | .ok member s => .ok (o.set field.id member) s
  | .error e s =>
    if e.isFatal then
      .error e s
    else
      .ok o { s with events := .fieldSkipped type field.name field.id e.message :: s.events }

/-- One field of a frame that ends at `stop`, read into an object. -/
def fieldInto (env : Environment) (limits : Limits) (nested : ObjectReader) (schema : Schema)
    (stop : Nat) (o : Object) : Decode Object := do
  let header ← frame Read.fieldHeader
  if header.stop > stop then
    throw (.corruption (.overread header.stop stop))
  let o ←
    match schema.entry? header.id with
    | none => do
      tell (.unknownField schema.name header.id header.size)
      pure o
    | some (entry, kind) =>
      orSkip schema.name entry o
        (within header.stop (field env limits nested schema.name header entry kind))
  seek header.stop
  return o

/-- The fields of a frame that ends at `stop`, read into an object. Each takes at least a word,
so `fuel` for the bytes that are left is enough. -/
def fieldsInto (env : Environment) (limits : Limits) (nested : ObjectReader) (schema : Schema)
    (stop : Nat) : (fuel : Nat) → Object → Decode Object
  | 0, o => pure o
  | fuel + 1, o => do
    if (← position) < stop then
      fieldsInto env limits nested schema stop fuel
        (← fieldInto env limits nested schema stop o)
    else
      return o

/-- The frame of an object, read into a fresh instance, with `nested` for the objects in it. -/
def objectFrame (env : Environment) (limits : Limits) (nested : ObjectReader) (schema : Schema)
    (fresh : Object) : Decode Object := do
  let stop ← frame Read.objectHeader
  let size := stop - (← position)
  if size > limits.maxObjectBytes then
    throw (.field (.limit ⟨.objectBytes, limits.maxObjectBytes, size⟩))
  let o ← within stop (fieldsInto env limits nested schema stop size fresh)
  seek stop
  return o

end Decode

/-- Reads an object, where `levels` more levels of nesting are left. -/
def decodeObject (env : Environment) (limits : Limits) : (levels : Nat) → ObjectReader
  | 0, type => do
    let schema ← Decode.described (env.schemaOf type)
    let _ ← Decode.described schema.construct
    throw (.depthExceeded (limits.maxDepth + 1) limits.maxDepth)
  | levels + 1, type => do
    let schema ← Decode.described (env.schemaOf type)
    let fresh ← Decode.described schema.construct
    Decode.objectFrame env limits (decodeObject env limits levels) schema fresh

/-- Reads an object at the position of a reader. -/
def decode (env : Environment) (limits : Limits) (type : String) :
    Read CodecError (Object × Report) := fun r =>
  match decodeObject env limits limits.maxDepth type ⟨r, []⟩ with
  | .ok o s => .ok (o, s.events.reverse) s.reader
  | .error e s => .error e s.reader

/-- The object at the start of some bytes, under the standard limits. -/
def ofBytes (env : Environment) (type : String) (bytes : Array UInt8) :
    Except CodecError Object :=
  match decode env .standard type (.ofBytes bytes) with
  | .ok result _ => .ok result.1
  | .error e _ => .error e

end TaggedParcel
