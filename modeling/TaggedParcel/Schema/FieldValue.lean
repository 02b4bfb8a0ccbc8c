import TaggedParcel.Shape.Basic
import TaggedParcel.Value.Reading

set_option relaxedAutoImplicit false
set_option autoImplicit false

/-!
# Values of single fields

A field that is no list, map or object holds one value, whose kind the type of the field
declares. The kind decides how the payload is read, so nothing is tagged.

## Main definitions

* `PlainKind`, `FieldValue` — the kinds of single values, and the values.
* `FieldValue.write`, `PlainKind.read` — their payloads.
* `RefinedValue` — a kind made by giving a plain kind a meaning of its own.
* `ValueKind` — what a single field may be declared to hold.
-/

namespace TaggedParcel

/-- A kind of single value with a payload of its own. -/
inductive PlainKind where
  | bool
  | byte
  | short
  | int
  | long
  | float
  | double
  | string
  | byteArray
  | byteArrayArray
  | intArray
  | floatArray
  | stringArray
  | bundle
  | binder
  deriving DecidableEq, Repr

/-- The value of a single field. -/
inductive FieldValue where
  | bool (b : Bool)
  | byte (n : Int8)
  | short (n : Int16)
  | int (n : Int32)
  | long (n : Int64)
  | float (x : Binary32)
  | double (x : Binary64)
  | string (text : String)
  | byteArray (bytes : Array UInt8)
  | byteArrayArray (items : List (Array UInt8))
  | intArray (items : List Int32)
  | floatArray (items : List Binary32)
  | stringArray (items : List String)
  | bundle (entries : Bundle)
  | binder (handle : BinderHandle)
  deriving Inhabited

namespace FieldValue

/-- The kind of a value. -/
def kind : FieldValue → PlainKind
  | .bool _ => .bool
  | .byte _ => .byte
  | .short _ => .short
  | .int _ => .int
  | .long _ => .long
  | .float _ => .float
  | .double _ => .double
  | .string _ => .string
  | .byteArray _ => .byteArray
  | .byteArrayArray _ => .byteArrayArray
  | .intArray _ => .intArray
  | .floatArray _ => .floatArray
  | .stringArray _ => .stringArray
  | .bundle _ => .bundle
  | .binder _ => .binder

/-- The number that a version gate watches, if the value is an integer. -/
def gateNumber? : FieldValue → Option Int64
  | .byte n => some n.toInt64
  | .short n => some n.toInt64
  | .int n => some n.toInt64
  | .long n => some n
  | _ => none

/-- The payload of a value. Values inside a bundle may nest `maxDepth` deep. -/
def write (maxDepth : Nat) : FieldValue → Write FieldError Unit
  | .bool b => Write.bool b
  | .byte n => Write.i32 n.toInt32
  | .short n => Write.i32 n.toInt32
  | .int n => Write.i32 n
  | .long n => Write.i64 n
  | .float x => Write.float x
  | .double x => Write.double x
  | .string text => Write.string16 text
  | .byteArray bytes => Write.byteArray bytes
  | .byteArrayArray items => do
    Write.length items.length
    Write.each (fun bytes => Write.byteArray bytes) items
  | .intArray items => Write.intArray items
  | .floatArray items => do
    Write.length items.length
    Write.each Write.float items
  | .stringArray items => Write.stringArray items
  | .bundle entries => Bundle.write entries 0 maxDepth
  | .binder handle => handle.write

end FieldValue

namespace PlainKind

/-- The shape that a field of this kind declares. -/
def shape : PlainKind → Shape
  | .bool => .bool
  | .byte => .byte
  | .short => .short
  | .int => .int
  | .long => .long
  | .float => .float
  | .double => .double
  | .string => .string
  | .byteArray => .array .byte
  | .byteArrayArray => .array (.array .byte)
  | .intArray => .array .int
  | .floatArray => .array .float
  | .stringArray => .array .string
  | .bundle => .bundle
  | .binder => .binder

/-- The value that a null stands for. Only arrays have one: the empty array. -/
def ofNull? : PlainKind → Option FieldValue
  | .byteArray => some (.byteArray #[])
  | .byteArrayArray => some (.byteArrayArray [])
  | .intArray => some (.intArray [])
  | .floatArray => some (.floatArray [])
  | .stringArray => some (.stringArray [])
  | _ => none

/-- The zero of a kind: false, the number zero, or nothing in it. -/
def zero : PlainKind → FieldValue
  | .bool => .bool false
  | .byte => .byte 0
  | .short => .short 0
  | .int => .int 0
  | .long => .long 0
  | .float => .float ⟨0⟩
  | .double => .double ⟨0⟩
  | .string => .string ""
  | .byteArray => .byteArray #[]
  | .byteArrayArray => .byteArrayArray []
  | .intArray => .intArray []
  | .floatArray => .floatArray []
  | .stringArray => .stringArray []
  | .bundle => .bundle []
  | .binder => .binder ⟨0, 0, 0, 0⟩

/-- The payload of a kind. A payload that is itself a null marker reads as `none`. -/
def read (limits : Limits) : PlainKind → Read FieldError (Option FieldValue)
  | .bool => do return some (.bool (← Read.bool))
  | .byte => do return some (.byte (← Read.i32).toInt8)
  | .short => do return some (.short (← Read.i32).toInt16)
  | .int => do return some (.int (← Read.i32))
  | .long => do return some (.long (← Read.i64))
  | .float => do return some (.float (← Read.float))
  | .double => do return some (.double (← Read.double))
  | .string => do return (← Read.string16).map .string
  | .byteArray => do return (← Read.byteArray).map .byteArray
  | .byteArrayArray => do
    return (← Read.arrayOf limits (Read.required Read.byteArray)).map .byteArrayArray
  | .intArray => do return (← Read.intArray limits).map .intArray
  | .floatArray => do return (← Read.arrayOf limits Read.float).map .floatArray
  | .stringArray => do return (← Read.stringArray limits).map .stringArray
  | .bundle => do return (← Bundle.read limits 0).map .bundle
  | .binder => do return some (.binder (← BinderHandle.read))

end PlainKind

/-- A kind of value that is carried as a plain kind and has a meaning of its own. The name of
the type whose field is written or read is at hand, and when reading also the limits.

Such a kind keeps to the defaults in two respects: there is no value that a null stands for, and
no number that a version gate watches. -/
structure RefinedValue where
  /-- The kind whose payload carries the value. -/
  carrier : PlainKind
  /-- The shape that a field of this kind declares. -/
  shape : Shape
  /-- The zero of the kind. -/
  zero : FieldValue
  /-- Values that are not written. -/
  isAbsent : FieldValue → Bool
  /-- What is written for a value. -/
  toPayload : (type : String) → FieldValue → FieldValue
  /-- An objection that is raised once a value is written. -/
  objection? : FieldValue → Option FieldError
  /-- The value of what was read, where `none` stands for a null. -/
  ofPayload : (type : String) → Limits → FieldValue → Except FieldError (Option FieldValue)

/-- What a single field may be declared to hold. -/
inductive ValueKind where
  /-- A kind with a payload of its own. -/
  | plain (kind : PlainKind)
  /-- A plain kind with a meaning of its own. -/
  | refined (kind : RefinedValue)
  /-- Something that can be declared, but that no field can carry. -/
  | uncarried (shape : Shape)

namespace ValueKind

/-- The shape that a field of this kind declares. -/
def shape : ValueKind → Shape
  | .plain kind => kind.shape
  | .refined kind => kind.shape
  | .uncarried shape => shape

/-- The value that a null stands for, if there is one. Kinds with a meaning of their own keep to the
default, which is none. -/
def ofNull? : ValueKind → Option FieldValue
  | .plain kind => kind.ofNull?
  | .refined _ | .uncarried _ => none

/-- The zero of a kind, if it can be carried. -/
def zero? : ValueKind → Option FieldValue
  | .plain kind => some kind.zero
  | .refined kind => some kind.zero
  | .uncarried _ => none

/-- The number that a version gate watches. Kinds with a meaning of their own keep to the default,
which is none. -/
def gateNumber? : ValueKind → FieldValue → Option Int64
  | .plain _, v => v.gateNumber?
  | .refined _, _ | .uncarried _, _ => none

/-- Whether a value is not to be written. -/
def isAbsent : ValueKind → FieldValue → Bool
  | .refined kind, v => kind.isAbsent v
  | .plain _, _ | .uncarried _, _ => false

/-- The payload of a value in a field of the type named `type`. -/
def write (type : String) (maxDepth : Nat) : ValueKind → FieldValue → Write FieldError Unit
  | .plain _, v => v.write maxDepth
  | .refined kind, v => do
    (kind.toPayload type v).write maxDepth
    match kind.objection? v with
    | some e => throw e
    | none => pure ()
  | .uncarried shape, _ => throw (.unsupported shape.text)

/-- The payload of a kind, read into a field of the type named `type`. -/
def read (type : String) (limits : Limits) : ValueKind → Read FieldError (Option FieldValue)
  | .plain kind => kind.read limits
  | .refined kind => do
    match ← kind.carrier.read limits with
    | none => return none
    | some v => kind.ofPayload type limits v
  | .uncarried shape => throw (.unsupported shape.text)

end ValueKind

end TaggedParcel
