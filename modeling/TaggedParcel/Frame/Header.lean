import TaggedParcel.Frame.Error

set_option relaxedAutoImplicit false
set_option autoImplicit false

/-!
# Field and object headers

A field starts with a header word: its low half is the field's id, its high half the size of
the payload. A size that does not fit there is escaped by the high half `0xFFFF`, and a word
with the size follows. An object is framed by a header whose id is the object magic and whose
size is that of all its fields together.

## Main definitions

* `FieldHeader`, `FieldFormat` — a header as read.
* `Write.fieldHeader`, `Write.nullField` — headers of a known size.
* `Write.beginField`, `Write.finishField`, `Write.beginObject`, `Write.finishObject` — headers
  whose size is patched once the payload is written.
* `Read.fieldHeader`, `Read.objectHeader`, `Read.skipField` — reading them.
-/

namespace TaggedParcel

/-- The id that marks an object's own header. -/
def objectMagic : UInt16 :=
  0x4F45

/-- The high half of a header word that says the size follows. -/
def sizeEscape : Nat :=
  0xFFFF

/-- The greatest offset: extents do not reach beyond it. -/
def maxOffset : Nat :=
  UInt64.size - 1

/-- Where a header keeps the size of its payload. -/
inductive FieldFormat where
  /-- In the high half of the header word. -/
  | fixed
  /-- In a word of its own. -/
  | delimited
  deriving DecidableEq, Repr

/-- The name of a format in reports. -/
def FieldFormat.name : FieldFormat → String
  | .fixed => "fixed"
  | .delimited => "delimited"

/-- A header as read. -/
structure FieldHeader where
  /-- The header word. -/
  word : UInt32
  /-- The field's id. -/
  id : UInt16
  /-- The size of the payload. -/
  size : Nat
  /-- Where the size was found. -/
  format : FieldFormat
  /-- The offset of the payload. -/
  payloadStart : Nat
  deriving DecidableEq, Repr

namespace FieldHeader

/-- The offset behind the payload. -/
def stop (h : FieldHeader) : Nat :=
  min (h.payloadStart + h.size) maxOffset

/-- An empty payload stands for null. -/
def isNull (h : FieldHeader) : Bool :=
  h.size == 0

end FieldHeader

/-- An open field, to be finished with its size. -/
structure FieldMark where
  /-- The field's id. -/
  id : UInt16
  /-- The reserved size word. -/
  slot : Slot
  deriving DecidableEq, Repr

/-- The offset of an open field's payload. -/
def FieldMark.payloadStart (m : FieldMark) : Nat :=
  m.slot.stop

/-- An open object, to be finished with its size. -/
structure ObjectMark where
  /-- The offset of the object's header. -/
  start : Nat
  /-- The reserved size word. -/
  slot : Slot
  deriving DecidableEq, Repr

/-- The header word with a given high half. -/
def headerWord (high : Nat) (id : UInt16) : UInt32 :=
  UInt32.ofNat (high * 65536 + id.toNat)

/-- The header word of a field whose size follows. -/
def escapedWord (id : UInt16) : UInt32 :=
  headerWord sizeEscape id

/-- The first word of an object with an escaped size. -/
def objectWord : UInt32 :=
  escapedWord objectMagic

namespace Write

variable {ε : Type}

/-- The header of a field with a payload of a known size, which has to fit 32 bits. -/
def fieldHeader (id : UInt16) (size : Nat) : Write FrameError Unit :=
  if size ≥ UInt32.size then
    throw (.buffer (.lengthOverflow size))
  else if size < sizeEscape then
    u32 (headerWord size id)
  else do
    u32 (escapedWord id)
    u32 (UInt32.ofNat size)

/-- A field without a payload. -/
def nullField (id : UInt16) : Write ε Unit :=
  u32 (headerWord 0 id)

/-- Opens a field whose size is not known yet. -/
def beginField (id : UInt16) : Write ε FieldMark := do
  u32 (escapedWord id)
  return ⟨id, ← reserve⟩

/-- Gives a slot the number of bytes written behind it. -/
def patchExtent (slot : Slot) : Write FrameError Unit := do
  patchSize slot ((← position) - slot.stop)

/-- Closes a field: its payload ends here. -/
def finishField (mark : FieldMark) : Write FrameError Unit :=
  patchExtent mark.slot

/-- Opens an object frame. -/
def beginObject : Write ε ObjectMark := do
  let start ← position
  u32 objectWord
  return ⟨start, ← reserve⟩

/-- Closes an object frame: its fields end here. -/
def finishObject (mark : ObjectMark) : Write FrameError Unit :=
  patchExtent mark.slot

end Write

namespace Read

/-- A word of a header. Where the bytes run out, the header's extent crosses the limit. -/
def headerPart : Read FrameError UInt32 := fun r =>
  match u32 r with
  | .ok word r => .ok word r
  | .error (.unexpectedEof requested _) r =>
    .error (.corruption (.overread (r.pos + requested) r.limit)) r
  | .error e r => .error (.buffer e) r

/-- The header of a field. -/
def fieldHeader : Read FrameError FieldHeader := do
  let word ← headerPart
  let id := UInt16.ofNat word.toNat
  let high := word.toNat / 65536
  if high = sizeEscape then
    let size ← headerPart
    return ⟨word, id, size.toNat, .delimited, ← position⟩
  else
    return ⟨word, id, high, .fixed, ← position⟩

/-- An offset that has to lie before the limit in force. -/
def boundedStop (header : FieldHeader) : Read FrameError Nat := do
  let limit ← limit
  if header.stop > limit then
    throw (.corruption (.overread header.stop limit))
  else
    return header.stop

/-- The header of an object, and the offset at which its fields end. -/
def objectHeader : Read FrameError Nat := do
  let header ← fieldHeader
  if header.id ≠ objectMagic then
    throw (.corruption (.invalidObjectHeader header.word))
  else
    boundedStop header

/-- Goes to the end of a field's payload. -/
def skipField (header : FieldHeader) : Read FrameError Unit := do
  let stop ← boundedStop header
  seek stop

end Read

end TaggedParcel
