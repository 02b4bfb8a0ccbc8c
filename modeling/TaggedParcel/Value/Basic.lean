import TaggedParcel.Buffer.Reader
import TaggedParcel.Buffer.Writer
import TaggedParcel.Value.Tag

set_option relaxedAutoImplicit false
set_option autoImplicit false

/-!
# Generic values

A generic value says itself what it is. Lists, maps and bundles hold further values. One kind of
value is a handle, which names a capability of another process: it is carried as it is and never
interpreted.

## Main definitions

* `BinderHandle` — the four words of a handle.
* `BinderHandle.write`, `BinderHandle.read` — its 24 bytes.
* `Value` — a value of any kind.
* `Bundle` — values under texts, in ascending order of the texts.
* `Value.tag`, `Value.kindName` — what kind a value is.
* `Value.same` — equality that compares floating-point numbers as numbers.
-/

namespace TaggedParcel

/-! ## Handles -/

/-- A handle to a capability of another process. -/
structure BinderHandle where
  kind : UInt32
  flags : UInt32
  object : UInt64
  cookie : UInt64
  deriving DecidableEq, Repr, Inhabited

namespace BinderHandle

/-- The four words of a handle. -/
def write {ε : Type} (h : BinderHandle) : Write ε Unit := do
  Write.u32 h.kind
  Write.u32 h.flags
  Write.u64 h.object
  Write.u64 h.cookie

/-- A handle of four words. -/
def read : Read BufferError BinderHandle := do
  return ⟨← Read.u32, ← Read.u32, ← Read.u64, ← Read.u64⟩

end BinderHandle

/-! ## Values -/

/-- A value of any kind. -/
inductive Value where
  | null
  | string (text : String)
  | int (n : Int32)
  | map (entries : List (Value × Value))
  | bundle (entries : List (String × Value))
  | short (n : Int16)
  | long (n : Int64)
  | float (x : Binary32)
  | double (x : Binary64)
  | bool (b : Bool)
  | list (items : List Value)
  | byteArray (bytes : Array UInt8)
  | stringArray (items : List String)
  | binder (handle : BinderHandle)
  | intArray (items : List Int32)
  | longArray (items : List Int64)
  | byte (n : Int8)
  deriving Inhabited

/-- Values under texts, each text at most once, in ascending order. -/
abbrev Bundle : Type :=
  List (String × Value)

namespace Value

/-- The tag that a value is written behind. -/
def tag : Value → ValueTag
  | .null => .null
  | .string _ => .string
  | .int _ => .int
  | .map _ => .map
  | .bundle _ => .bundle
  | .short _ => .short
  | .long _ => .long
  | .float _ => .float
  | .double _ => .double
  | .bool _ => .bool
  | .list _ => .list
  | .byteArray _ => .byteArray
  | .stringArray _ => .stringArray
  | .binder _ => .binder
  | .intArray _ => .intArray
  | .longArray _ => .longArray
  | .byte _ => .byte

/-- The name of a value's kind in messages. -/
def kindName : Value → String
  | .null => "null"
  | .string _ => "string"
  | .int _ => "int"
  | .map _ => "map"
  | .bundle _ => "bundle"
  | .short _ => "short"
  | .long _ => "long"
  | .float _ => "float"
  | .double _ => "double"
  | .bool _ => "bool"
  | .list _ => "list"
  | .byteArray _ => "byte array"
  | .stringArray _ => "string array"
  | .binder _ => "binder"
  | .intArray _ => "int array"
  | .longArray _ => "long array"
  | .byte _ => "byte"

/-- Whether a value is the null value. -/
def isNull : Value → Bool
  | .null => true
  | _ => false

mutual

/-- Equality of values, with floating-point numbers compared as numbers: a NaN differs from
itself, and the two zeros are equal. -/
def same : Value → Value → Bool
  | .null, .null => true
  | .string a, .string b => a == b
  | .int a, .int b => a == b
  | .map a, .map b => sameEntries a b
  | .bundle a, .bundle b => sameBundle a b
  | .short a, .short b => a == b
  | .long a, .long b => a == b
  | .float a, .float b => a.numEq b
  | .double a, .double b => a.numEq b
  | .bool a, .bool b => a == b
  | .list a, .list b => sameItems a b
  | .byteArray a, .byteArray b => a == b
  | .stringArray a, .stringArray b => a == b
  | .binder a, .binder b => a == b
  | .intArray a, .intArray b => a == b
  | .longArray a, .longArray b => a == b
  | .byte a, .byte b => a == b
  | _, _ => false

/-- Equality of the items of lists, in order. -/
def sameItems : List Value → List Value → Bool
  | [], [] => true
  | a :: as, b :: bs => same a b && sameItems as bs
  | _, _ => false

/-- Equality of the entries of maps, in order. -/
def sameEntries : List (Value × Value) → List (Value × Value) → Bool
  | [], [] => true
  | (k, v) :: as, (l, w) :: bs => same k l && same v w && sameEntries as bs
  | _, _ => false

/-- Equality of the entries of bundles, in order. -/
def sameBundle : List (String × Value) → List (String × Value) → Bool
  | [], [] => true
  | (k, v) :: as, (l, w) :: bs => k == l && same v w && sameBundle as bs
  | _, _ => false

end

end Value

end TaggedParcel
