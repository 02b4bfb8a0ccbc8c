import TaggedParcel.Frame.Layout

set_option relaxedAutoImplicit false
set_option autoImplicit false

/-!
# Inspection reports

A report tells what can be told of bytes without knowing their type: the tree of objects and
fields, its size and depth, and the values of the words in it.

## Main definitions

* `ObjectSummary`, `FieldSummary` — the tree.
* `InspectReport` — the tree with its counts.
* `InspectReport.ofBytes` — the report on some bytes.
-/

namespace TaggedParcel

mutual

/-- What is told of an object. -/
structure ObjectSummary where
  /-- The offset of its header. -/
  offset : Nat
  /-- How many bytes its fields take. -/
  size : Nat
  /-- Its fields, in the order of the bytes. -/
  fields : List FieldSummary

/-- What is told of a field. -/
structure FieldSummary where
  /-- Its id. -/
  id : UInt16
  /-- The offset of its header. -/
  offset : Nat
  /-- The size of its payload. -/
  size : Nat
  /-- Where the header keeps the size. -/
  format : FieldFormat
  /-- Its payload as a signed number, if it may be a word. -/
  scalar : Option Int
  /-- The object in its payload, if there is one. -/
  nested : Option ObjectSummary

end

/-- A payload as a signed number, if it is one or two words long. -/
def scalarOf? (payload : List UInt8) : Option Int :=
  let n := LittleEndian.value payload
  if payload.length = 4 then some (UInt32.ofNat n).toInt32.toInt
  else if payload.length = 8 then some (UInt64.ofNat n).toInt64.toInt
  else none

/-- The number in a payload whose size is in the header word. -/
def fieldScalar? (bytes : Array UInt8) (format : FieldFormat) (offset size : Nat) : Option Int :=
  if format = .fixed ∧ offset + size ≤ bytes.size then
    scalarOf? (bytes.extract offset (offset + size)).toList
  else
    none

mutual

/-- What is told of an object with a given layout. -/
def ObjectSummary.ofLayout (bytes : Array UInt8) : ObjectLayout → ObjectSummary
  | ⟨offset, size, _, fields⟩ => ⟨offset, size, FieldSummary.ofLayouts bytes fields⟩

/-- What is told of an object that there may be. -/
def ObjectSummary.ofLayout? (bytes : Array UInt8) : Option ObjectLayout → Option ObjectSummary
  | none => none
  | some layout => some (ObjectSummary.ofLayout bytes layout)

/-- What is told of a field with a given layout. -/
def FieldSummary.ofLayout (bytes : Array UInt8) : FieldLayout → FieldSummary
  | ⟨id, offset, payloadOffset, size, format, nested⟩ =>
    ⟨id, offset, size, format, fieldScalar? bytes format payloadOffset size,
      ObjectSummary.ofLayout? bytes nested⟩

/-- What is told of fields with given layouts. -/
def FieldSummary.ofLayouts (bytes : Array UInt8) : List FieldLayout → List FieldSummary
  | [] => []
  | field :: rest => FieldSummary.ofLayout bytes field :: FieldSummary.ofLayouts bytes rest

end

mutual

/-- How many fields there are in an object, those of objects inside it included. -/
def ObjectSummary.fieldCount : ObjectSummary → Nat
  | ⟨_, _, fields⟩ => FieldSummary.countAll fields

/-- How many fields there are in an object that there may be. -/
def ObjectSummary.fieldCount? : Option ObjectSummary → Nat
  | none => 0
  | some object => object.fieldCount

/-- How many fields a list of fields comes to, those of objects inside them included. -/
def FieldSummary.countAll : List FieldSummary → Nat
  | [] => 0
  | ⟨_, _, _, _, _, nested⟩ :: rest =>
    1 + ObjectSummary.fieldCount? nested + FieldSummary.countAll rest

end

mutual

/-- How deep objects nest; an object alone has depth one. -/
def ObjectSummary.depth : ObjectSummary → Nat
  | ⟨_, _, fields⟩ => 1 + FieldSummary.maxDepth fields

/-- How deep an object nests that there may be. -/
def ObjectSummary.depth? : Option ObjectSummary → Nat
  | none => 0
  | some object => object.depth

/-- The greatest depth of the objects in a list of fields. -/
def FieldSummary.maxDepth : List FieldSummary → Nat
  | [] => 0
  | ⟨_, _, _, _, _, nested⟩ :: rest =>
    max (ObjectSummary.depth? nested) (FieldSummary.maxDepth rest)

end

/-- A report on some bytes. -/
structure InspectReport where
  /-- How many bytes there are. -/
  totalBytes : Nat
  /-- How many of them lie behind the object. -/
  trailingBytes : Nat
  /-- How many fields there are, at all depths. -/
  fieldCount : Nat
  /-- How deep objects nest. -/
  maxDepth : Nat
  /-- The tree. -/
  object : ObjectSummary

/-- The report on the object at the start of some bytes. -/
def InspectReport.ofBytes (bytes : Array UInt8) (limits : Limits) :
    Except FrameError InspectReport := do
  let layout ← ObjectLayout.scan bytes limits
  let object := ObjectSummary.ofLayout bytes layout
  return {
    totalBytes := bytes.size
    trailingBytes := bytes.size - layout.stop
    fieldCount := object.fieldCount
    maxDepth := object.depth
    object }

end TaggedParcel
