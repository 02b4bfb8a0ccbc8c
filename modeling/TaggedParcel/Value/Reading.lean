import TaggedParcel.Value.Sorted
import TaggedParcel.Value.Writing

set_option relaxedAutoImplicit false
set_option autoImplicit false

/-!
# Reading generic values

Counts come from the input, so they are checked before the entries are read. A null count is an
empty list or map; a null array or bundle is the null value.

## Main definitions

* `Value.read` — a value with its tag.
* `Bundle.read` — a bundle without a tag.
-/

namespace TaggedParcel

namespace Read

/-- The length of a collection that is empty if it is null. -/
def countOrZero (limits : Limits) : Read FieldError Nat := do
  let count := (← length).getD 0
  limits.checkElements count
  return count

/-- A counted array, with `item` for each of its items. A null reads as `none`. -/
def arrayOf {α : Type} (limits : Limits) (item : Read FieldError α) :
    Read FieldError (Option (List α)) := do
  match ← count limits with
  | none => return none
  | some count => return some (← times count item)

/-- A counted array of texts. -/
def stringArray (limits : Limits) : Read FieldError (Option (List String)) :=
  arrayOf limits (required string16)

/-- A counted array of signed 32-bit words. -/
def intArray (limits : Limits) : Read FieldError (Option (List Int32)) :=
  arrayOf limits i32

/-- A counted array of signed 64-bit words. -/
def longArray (limits : Limits) : Read FieldError (Option (List Int64)) :=
  arrayOf limits i64

/-- A bundle, with `item` for the value of each entry. Its own length says where it ends, and
reading goes on there. -/
def bundleWith (limits : Limits) (item : Read FieldError Value) :
    Read FieldError (Option Bundle) := do
  match ← length with
  | none => return none
  | some size =>
    let magic ← u32
    if magic ≠ bundleMagic then
      throw (.invalidBundle magic)
    let stop := (← position) + size
    let entries ← within .buffer stop do
      let count ← countOrZero limits
      times count do
        let key ← required string16
        let value ← item
        return (key, value)
    seek stop
    return some (Bundle.ofList entries)

end Read

/-- The reader for values one level deeper, if there is a level left. -/
def Read.deeper (limits : Limits) (inner : Option (Read FieldError Value)) :
    Read FieldError (Read FieldError Value) :=
  match inner with
  | some inner => pure inner
  | none => throw (.limit (.depth limits))

/-- A value with its tag, with `inner` for the values one level deeper. -/
def Value.readWith (limits : Limits) (inner : Option (Read FieldError Value)) :
    Read FieldError Value := do
  match ← ValueTag.parse (← Read.i32) with
  | .null => return .null
  | .string => return .string (← Read.required Read.string16)
  | .int => return .int (← Read.i32)
  | .map =>
    let item ← Read.deeper limits inner
    let count ← Read.countOrZero limits
    return .map (← Read.times count do return (← item, ← item))
  | .bundle =>
    let item ← Read.deeper limits inner
    let bundle ← Read.bundleWith limits item
    return bundle.elim .null .bundle
  | .parcelable => throw (.unsupported "a parcelable inside a generic value")
  | .short => return .short (← Read.i32).toInt16
  | .long => return .long (← Read.i64)
  | .float => return .float (← Read.float)
  | .double => return .double (← Read.double)
  | .bool => return .bool (← Read.bool)
  | .list =>
    let item ← Read.deeper limits inner
    let count ← Read.countOrZero limits
    return .list (← Read.times count item)
  | .byteArray => return (← Read.byteArray).elim .null .byteArray
  | .stringArray => return (← Read.stringArray limits).elim .null .stringArray
  | .binder => return .binder (← BinderHandle.read)
  | .intArray => return (← Read.intArray limits).elim .null .intArray
  | .longArray => return (← Read.longArray limits).elim .null .longArray
  | .byte => return .byte (← Read.i32).toInt8

/-- A value with its tag, where `levels` more levels of nesting are left. -/
def Value.readWithin (limits : Limits) : (levels : Nat) → Read FieldError Value
  | 0 => readWith limits none
  | levels + 1 => readWith limits (some (readWithin limits levels))

/-- A value with its tag, at a level of nesting. -/
def Value.read (limits : Limits) (level : Nat) : Read FieldError Value :=
  Value.readWithin limits (limits.maxDepth - level)

/-- A bundle without a tag, whose values are at a level of nesting. -/
def Bundle.read (limits : Limits) (level : Nat) : Read FieldError (Option Bundle) :=
  Read.bundleWith limits (Value.read limits level)

end TaggedParcel
