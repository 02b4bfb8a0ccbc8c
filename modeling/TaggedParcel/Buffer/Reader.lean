import TaggedParcel.Binary.LittleEndian
import TaggedParcel.Text.Encoding
import TaggedParcel.Buffer.Basic

set_option relaxedAutoImplicit false
set_option autoImplicit false

/-!
# Reading a buffer

A reader is a position in a buffer and a limit that reads may not cross. Limits nest: a block
of reads runs under a narrower limit, and the limit before it is back in force afterwards,
however the block ends. A step that fails keeps the bytes it had already consumed.

## Main definitions

* `Reader` — a buffer, a position and a limit.
* `Read` — computations that move a reader and may fail.
* `Read.within` — a block of reads under a narrower limit.
* `Read.u32`, `Read.i32`, `Read.u64`, `Read.i64`, `Read.float`, `Read.double`, `Read.bool` —
  the words of the format.
* `Read.length`, `Read.byteArray`, `Read.string16` — length-prefixed payloads, with a null.
-/

namespace TaggedParcel

/-- A position in a buffer, and the limit that reads may not cross. -/
structure Reader where
  /-- The whole buffer. -/
  bytes : Array UInt8
  /-- The offset of the next byte to read. -/
  pos : Nat
  /-- The offset behind the last byte that may be read. -/
  limit : Nat
  deriving DecidableEq, Repr

namespace Reader

/-- A reader at the start of a buffer, free to read all of it. -/
def ofBytes (bytes : Array UInt8) : Reader :=
  ⟨bytes, 0, bytes.size⟩

/-- How many bytes lie before the limit. -/
def remaining (r : Reader) : Nat :=
  r.limit - r.pos

end Reader

/-- A computation that moves a reader and may fail. The reader after a failure is the one that
the failing step left. -/
abbrev Read (ε α : Type) : Type :=
  EStateM ε Reader α

namespace Read

variable {ε ε' α : Type}

/-- Runs a computation, renaming its failure. -/
def mapError (f : ε → ε') (step : Read ε α) : Read ε' α := fun r =>
  match step r with
  | .ok a r => .ok a r
  | .error e r => .error (f e) r

/-- The present position. -/
def position : Read ε Nat := fun r => .ok r.pos r

/-- The limit in force. -/
def limit : Read ε Nat := fun r => .ok r.limit r

/-- Moves to a position, forwards or backwards, but never behind the limit. -/
def seek (position : Nat) : Read BufferError Unit := fun r =>
  if position > r.limit then
    .error (.positionOutOfBounds position r.limit) r
  else
    .ok () { r with pos := position }

/-- Takes `count` bytes, of which the first `wanted` are the answer and the rest is padding. -/
def takePadded (wanted count : Nat) : Read BufferError (Array UInt8) := fun r =>
  if count > r.remaining then
    .error (.unexpectedEof count r.remaining) r
  else
    .ok (r.bytes.extract r.pos (r.pos + wanted)) { r with pos := r.pos + count }

/-- Takes the next `count` bytes. -/
def raw (count : Nat) : Read BufferError (Array UInt8) :=
  takePadded count count

/-- Passes over the next `count` bytes. -/
def skip (count : Nat) : Read BufferError Unit := fun r =>
  if count > r.remaining then
    .error (.unexpectedEof count r.remaining) r
  else
    .ok () { r with pos := r.pos + count }

/-- Runs a block of reads that may not cross `stop`. The block is refused if `stop` lies behind
the limit in force or before the position; once it has run, that limit is in force again. -/
def within (refuse : BufferError → ε) (stop : Nat) (block : Read ε α) : Read ε α := fun r =>
  if stop > r.limit then
    .error (refuse (.limitExceeded stop r.limit)) r
  else if stop < r.pos then
    .error (refuse (.positionOutOfBounds r.pos stop)) r
  else
    match block { r with limit := stop } with
    | .ok a r' => .ok a { r' with limit := r.limit }
    | .error e r' => .error e { r' with limit := r.limit }

/-! ## Words -/

/-- A little-endian number of `width` bytes. -/
def word (width : Nat) : Read BufferError Nat := do
  let digits ← raw width
  return LittleEndian.value digits.toList

/-- An unsigned 32-bit word. -/
def u32 : Read BufferError UInt32 := do
  return UInt32.ofNat (← word 4)

/-- A signed 32-bit word. -/
def i32 : Read BufferError Int32 := do
  return (← u32).toInt32

/-- An unsigned 64-bit word. -/
def u64 : Read BufferError UInt64 := do
  return UInt64.ofNat (← word 8)

/-- A signed 64-bit word. -/
def i64 : Read BufferError Int64 := do
  return (← u64).toInt64

/-- A single-precision number. -/
def float : Read BufferError Binary32 := do
  return ⟨← u32⟩

/-- A double-precision number. -/
def double : Read BufferError Binary64 := do
  return ⟨← u64⟩

/-- A truth value: a word, of which zero alone is false. -/
def bool : Read BufferError Bool := do
  return (← i32) != 0

/-! ## Length-prefixed payloads -/

/-- A length word: `-1` is the null marker, and no other length is negative. -/
def length : Read BufferError (Option Nat) := do
  let length ← i32
  if length = -1 then
    return none
  else if length < 0 then
    throw (.invalidLength length)
  else
    return some length.toInt.toNat

/-- A byte array: a length, the bytes, and padding to whole words. -/
def byteArray : Read BufferError (Option (Array UInt8)) := do
  match ← length with
  | none => return none
  | some count => return some (← takePadded count (padTo4 count))

/-- The code units that pairs of bytes stand for; an odd byte at the end is dropped. -/
def unitsOfBytes (bytes : List UInt8) : List UInt16 :=
  go bytes []
where
  /-- Collects units, last first. -/
  go : List UInt8 → List UInt16 → List UInt16
    | low :: high :: rest, units => go rest (UInt16.ofNat (LittleEndian.value [low, high]) :: units)
    | _, units => units.reverse

/-- A text: the number of its UTF-16 units, the units and a terminating unit, and padding to
whole words. Neither the terminator nor the padding is looked at. -/
def string16 : Read BufferError (Option String) := do
  match ← length with
  | none => return none
  | some count =>
    let bytes ← takePadded (2 * count) (padTo4 (2 * (count + 1)))
    match Utf16.decode? (unitsOfBytes bytes.toList) with
    | some text => return some (String.ofList text)
    | none => throw .invalidUtf16

/-! ## Repetition -/

/-- Repeats a step `count` times and lists the answers in order. -/
def times (count : Nat) (step : Read ε α) : Read ε (List α) :=
  go count []
where
  /-- Collects answers, last first. -/
  go : Nat → List α → Read ε (List α)
    | 0, done => fun r => .ok done.reverse r
    | count + 1, done => fun r =>
      match step r with
      | .ok a r => go count (a :: done) r
      | .error e r => .error e r

end Read

end TaggedParcel
