import TaggedParcel.Value.Basic
import TaggedParcel.Value.Error

set_option relaxedAutoImplicit false
set_option autoImplicit false

/-!
# Writing generic values

A value is its tag and a payload. Lists and maps count their entries; a bundle frames itself
with its length and a magic word. Nesting is bounded: each list, map or bundle takes one of the
levels that are left.

## Main definitions

* `Value.write` — a value with its tag.
* `Bundle.write` — a bundle without a tag.
-/

namespace TaggedParcel

/-- The second word of a bundle. -/
def bundleMagic : UInt32 :=
  0x4C444E42

namespace Write

/-- A counted array of texts. -/
def stringArray (items : List String) : Write FieldError Unit := do
  length items.length
  each (fun text => string16 text) items

/-- A counted array of signed 32-bit words. -/
def intArray (items : List Int32) : Write FieldError Unit := do
  length items.length
  each i32 items

/-- A counted array of signed 64-bit words. -/
def longArray (items : List Int64) : Write FieldError Unit := do
  length items.length
  each i64 items

/-- A bundle: the length of what follows its magic, the magic, and the counted entries, each a
text and a value written by `item`. -/
def bundleWith (item : Value → Write FieldError Unit) (entries : Bundle) :
    Write FieldError Unit := do
  let slot ← reserve
  u32 bundleMagic
  let start ← position
  length entries.length
  each (fun entry => do string16 entry.1; item entry.2) entries
  patchSize slot ((← position) - start)

end Write

/-- The writer for values one level deeper, if there is a level left below `maxDepth`. -/
def Write.deeper (maxDepth : Nat) (inner : Option (Value → Write FieldError Unit)) :
    Write FieldError (Value → Write FieldError Unit) :=
  match inner with
  | some inner => pure inner
  | none => throw (.limit ⟨.depth, maxDepth, maxDepth + 1⟩)

/-- A value with its tag, with `inner` for the values one level deeper. -/
def Value.writeWith (maxDepth : Nat) (inner : Option (Value → Write FieldError Unit))
    (value : Value) : Write FieldError Unit := do
  Write.i32 value.tag.code
  match value with
  | .null => pure ()
  | .string text => Write.string16 text
  | .int n => Write.i32 n
  | .map entries =>
    let item ← Write.deeper maxDepth inner
    Write.length entries.length
    Write.each (fun entry => do item entry.1; item entry.2) entries
  | .bundle entries =>
    let item ← Write.deeper maxDepth inner
    Write.bundleWith item entries
  | .short n => Write.i32 n.toInt32
  | .long n => Write.i64 n
  | .float x => Write.float x
  | .double x => Write.double x
  | .bool b => Write.bool b
  | .list items =>
    let item ← Write.deeper maxDepth inner
    Write.length items.length
    Write.each item items
  | .byteArray bytes => Write.byteArray bytes
  | .stringArray items => Write.stringArray items
  | .binder handle => handle.write
  | .intArray items => Write.intArray items
  | .longArray items => Write.longArray items
  | .byte n => Write.i32 n.toInt32

/-- A value with its tag, where `levels` more levels of nesting are left below `maxDepth`. -/
def Value.writeWithin (maxDepth : Nat) : (levels : Nat) → Value → Write FieldError Unit
  | 0 => writeWith maxDepth none
  | levels + 1 => writeWith maxDepth (some (writeWithin maxDepth levels))

/-- A value with its tag, at a level of nesting. -/
def Value.write (value : Value) (level maxDepth : Nat) : Write FieldError Unit :=
  value.writeWithin maxDepth (maxDepth - level)

/-- A bundle without a tag, whose values are at a level of nesting. -/
def Bundle.write (bundle : Bundle) (level maxDepth : Nat) : Write FieldError Unit :=
  Write.bundleWith (fun value => value.write level maxDepth) bundle

end TaggedParcel
