import TaggedParcel.Binary.LittleEndian
import TaggedParcel.Text.Encoding
import TaggedParcel.Buffer.Basic

set_option relaxedAutoImplicit false
set_option autoImplicit false

/-!
# Writing a buffer

A writer appends to a growing buffer. A size that is not known yet is written as a reserved
slot and patched later; what turns out not to belong in the buffer is cut off again.

## Main definitions

* `Writer` — the bytes written so far.
* `Write` — computations that extend a writer and may fail.
* `Slot` — a reserved word.
* `Write.u32` and its like — the words of the format; `Write.length`, `Write.byteArray`,
  `Write.string16` — length-prefixed payloads.
* `Write.reserve`, `Write.patch`, `Write.truncate` — going back.
-/

namespace TaggedParcel

/-- A buffer may be given by the array of its bytes. -/
instance Writer.coeBuffer : Coe (Array UInt8) ByteArray :=
  ⟨ByteArray.mk⟩

/-- The bytes written so far. -/
structure Writer where
  /-- The buffer. -/
  buffer : ByteArray

/-- Writers are compared by the arrays of their bytes. -/
instance : DecidableEq Writer := fun w w' =>
  decidable_of_iff (w.buffer.data = w'.buffer.data)
    ⟨fun h => congrArg Writer.mk (ByteArray.ext h), fun h => h ▸ rfl⟩

/-- A reserved word in a buffer. -/
structure Slot where
  /-- The offset of its first byte. -/
  offset : Nat
  deriving DecidableEq, Repr

/-- The offset behind the reserved word. -/
def Slot.stop (s : Slot) : Nat :=
  s.offset + 4

namespace Writer

/-- A writer with nothing written. -/
def empty : Writer :=
  ⟨.empty⟩

/-- The bytes of the buffer. -/
def bytes (w : Writer) : Array UInt8 :=
  w.buffer.data

/-- The number of bytes written, which is where the next byte goes. -/
def position (w : Writer) : Nat :=
  w.buffer.size

/-- Appends bytes. -/
def append (w : Writer) (bytes : List UInt8) : Writer :=
  ⟨w.buffer ++ bytes.toByteArray⟩

/-- Cuts off everything behind a position; a position behind the end changes nothing. -/
def truncate (w : Writer) (position : Nat) : Writer :=
  ⟨w.buffer.extract 0 position⟩

end Writer

/-- Replaces the bytes from `offset` on, as far as they lie inside the buffer. -/
def overwrite (buffer : ByteArray) (offset : Nat) : List UInt8 → ByteArray
  | [] => buffer
  | b :: rest => overwrite (buffer.set! offset b) (offset + 1) rest

/-- A computation that extends a writer and may fail. -/
abbrev Write (ε α : Type) : Type :=
  EStateM ε Writer α

namespace Write

variable {ε ε' α : Type}

/-- Runs a computation, renaming its failure. -/
def mapError (f : ε → ε') (step : Write ε α) : Write ε' α := fun w =>
  match step w with
  | .ok a w => .ok a w
  | .error e w => .error (f e) w

/-- The present position. (Kept out of line, so that the number is taken before the buffer grows
and the buffer is never shared.) -/
@[noinline]
def position : Write ε Nat := fun w => .ok w.position w

/-- Appends bytes as they are. -/
def raw (bytes : List UInt8) : Write ε Unit := fun w => .ok () (w.append bytes)

/-- Appends the bytes of an array as they are. -/
def rawArray (bytes : Array UInt8) : Write ε Unit := fun w => .ok () ⟨w.buffer ++ ⟨bytes⟩⟩

/-! ## Words -/

/-- An unsigned 32-bit word. -/
def u32 (n : UInt32) : Write ε Unit :=
  raw (LittleEndian.digits 4 n.toNat)

/-- A signed 32-bit word. -/
def i32 (n : Int32) : Write ε Unit :=
  u32 n.toUInt32

/-- An unsigned 64-bit word. -/
def u64 (n : UInt64) : Write ε Unit :=
  raw (LittleEndian.digits 8 n.toNat)

/-- A signed 64-bit word. -/
def i64 (n : Int64) : Write ε Unit :=
  u64 n.toUInt64

/-- A single-precision number. -/
def float (x : Binary32) : Write ε Unit :=
  u32 x.bits

/-- A double-precision number. -/
def double (x : Binary64) : Write ε Unit :=
  u64 x.bits

/-- A truth value, as the word one or zero. -/
def bool (b : Bool) : Write ε Unit :=
  i32 (if b then 1 else 0)

/-! ## Length-prefixed payloads -/

/-- The greatest length that a length word holds. -/
def maxLength : Nat :=
  0x7FFFFFFF

/-- The length word that stands for an absent payload. -/
def null : Write ε Unit :=
  i32 (-1)

/-- A length word. It is signed, so a greater length than `maxLength` does not fit. -/
def length (count : Nat) : Write BufferError Unit :=
  if count ≤ maxLength then
    i32 (Int32.ofNat count)
  else
    throw (.lengthOverflow count)

/-- Zero bytes up to the next whole word, behind a payload of `count` bytes. -/
def padding (count : Nat) : Write ε Unit :=
  raw (List.replicate (padTo4 count - count) 0)

/-- A byte array: a length, the bytes, and padding to whole words. -/
def byteArray (bytes : Array UInt8) : Write BufferError Unit := do
  length bytes.size
  rawArray bytes
  padding bytes.size

/-- The bytes of code units, low byte first. -/
def bytesOfUnits (units : List UInt16) : List UInt8 :=
  units.flatMap fun u => LittleEndian.digits 2 u.toNat

/-- A text: the number of its UTF-16 units, the units and a zero unit, and padding to whole
words. -/
def string16 (text : String) : Write BufferError Unit := do
  let units := Utf16.encode text.toList
  length units.length
  raw (bytesOfUnits units)
  raw [0, 0]
  padding (2 * (units.length + 1))

/-! ## Going back -/

/-- Writes a zero word to be patched later. -/
def reserve : Write ε Slot := do
  let offset ← position
  u32 0
  return ⟨offset⟩

/-- Gives a reserved word its value. The slot has to lie inside the buffer. -/
def patch (slot : Slot) (n : UInt32) : Write BufferError Unit := fun w =>
  if slot.stop ≤ w.position then
    .ok () ⟨overwrite w.buffer slot.offset (LittleEndian.digits 4 n.toNat)⟩
  else
    .error (.invalidSlot slot.offset w.position) w

/-- Patches a slot with a size, which has to fit 32 bits. -/
def patchSize (slot : Slot) (size : Nat) : Write BufferError Unit :=
  if size < UInt32.size then
    patch slot (UInt32.ofNat size)
  else
    throw (.lengthOverflow size)

/-- Cuts off everything behind a position. -/
def truncate (position : Nat) : Write ε Unit := fun w => .ok () (w.truncate position)

/-! ## Repetition -/

/-- Writes the items of a list in order. -/
def each (write : α → Write ε Unit) : List α → Write ε Unit
  | [] => fun w => .ok () w
  | a :: rest => fun w =>
    match write a w with
    | .ok () w => each write rest w
    | .error e w => .error e w

end Write

end TaggedParcel
