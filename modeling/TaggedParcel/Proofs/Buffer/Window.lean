import Mathlib.Tactic.Lemma
import TaggedParcel.Buffer.Reader

set_option relaxedAutoImplicit false
set_option autoImplicit false

/-!
# The bytes ahead of a reader

A step on a reader sees nothing but the bytes between the position and the limit. Here these
bytes are a list, and every step on a reader is described by what it does to that list.

## Main definitions

* `Reader.ahead` — the bytes between the position and the limit.
* `Reader.Sound` — a reader inside its buffer, of a buffer that memory can hold.
* `Reader.advance`, `Reader.narrow` — moving the position, and lowering the limit.

## Main results

* `Reader.ahead_advance`, `Reader.ahead_narrow` — what the two do to the bytes ahead.
* `Read.takePadded_of_le`, `Read.takePadded_of_lt` — taking bytes, in terms of the bytes ahead.
* `Read.within_narrow` — a block under a lower limit sees the first of the bytes ahead.
-/

namespace TaggedParcel

/-- The greatest number of bytes in a buffer: memory holds no greater array. -/
def maxBuffer : Nat :=
  0x7FFFFFFFFFFFFFFF

namespace Reader

/-- A reader inside its buffer, of a buffer that memory can hold. -/
structure Sound (r : Reader) : Prop where
  /-- The position does not lie behind the limit. -/
  pos_le : r.pos ≤ r.limit
  /-- The limit does not lie behind the end of the buffer. -/
  limit_le : r.limit ≤ r.bytes.size
  /-- Memory can hold the buffer. -/
  size_le : r.bytes.size ≤ maxBuffer

/-- The bytes that may still be read. -/
def ahead (r : Reader) : List UInt8 :=
  (r.bytes.extract r.pos r.limit).toList

/-- The reader behind the next `n` bytes. -/
def advance (r : Reader) (n : Nat) : Reader :=
  { r with pos := r.pos + n }

/-- The reader that may read only the next `n` bytes. -/
def narrow (r : Reader) (n : Nat) : Reader :=
  { r with limit := r.pos + n }

variable {r : Reader}

/-- Advancing keeps the bytes. -/
@[simp] lemma advance_bytes (n : Nat) : (r.advance n).bytes = r.bytes := rfl

/-- Advancing moves the position. -/
@[simp] lemma advance_pos (n : Nat) : (r.advance n).pos = r.pos + n := rfl

/-- Advancing keeps the limit. -/
@[simp] lemma advance_limit (n : Nat) : (r.advance n).limit = r.limit := rfl

/-- Narrowing keeps the bytes. -/
@[simp] lemma narrow_bytes (n : Nat) : (r.narrow n).bytes = r.bytes := rfl

/-- Narrowing keeps the position. -/
@[simp] lemma narrow_pos (n : Nat) : (r.narrow n).pos = r.pos := rfl

/-- Narrowing sets the limit that many bytes behind the position. -/
@[simp] lemma narrow_limit (n : Nat) : (r.narrow n).limit = r.pos + n := rfl

/-- Advancing by nothing changes nothing. -/
@[simp] lemma advance_zero : r.advance 0 = r := rfl

/-- Advancing twice is advancing by the sum. -/
@[simp] lemma advance_advance (m n : Nat) : (r.advance m).advance n = r.advance (m + n) := by
  simp [advance, Nat.add_assoc]

/-- The bytes ahead are those before the limit, without those before the position. -/
lemma ahead_eq_drop_take : r.ahead = (r.bytes.toList.take r.limit).drop r.pos := by
  simp [ahead, List.extract_eq_take_drop, List.drop_take]

/-- There are as many bytes ahead as lie between position and limit. -/
lemma length_ahead (hr : r.Sound) : r.ahead.length = r.limit - r.pos := by
  have h := hr.limit_le
  simp only [ahead, Array.length_toList, Array.size_extract]
  omega

/-- What remains is the number of bytes ahead. -/
lemma remaining_eq (hr : r.Sound) : r.remaining = r.ahead.length :=
  (length_ahead hr).symm

/-- The limit lies behind the bytes ahead. -/
lemma limit_eq (hr : r.Sound) : r.limit = r.pos + r.ahead.length := by
  have h := hr.pos_le
  rw [length_ahead hr]
  omega

/-- Advancing drops bytes ahead. -/
@[simp] lemma ahead_advance (n : Nat) : (r.advance n).ahead = r.ahead.drop n := by
  rw [ahead_eq_drop_take, ahead_eq_drop_take, List.drop_drop, advance_bytes, advance_limit,
    advance_pos]

/-- Narrowing leaves as many bytes ahead as are asked for. -/
lemma ahead_narrow {n : Nat} (hr : r.Sound) (hn : n ≤ r.ahead.length) :
    (r.narrow n).ahead = r.ahead.take n := by
  have hlimit := limit_eq hr
  rw [ahead_eq_drop_take, ahead_eq_drop_take, narrow_bytes, narrow_limit, narrow_pos,
    List.take_drop, List.take_take, Nat.min_eq_left (by omega)]

/-- A sound reader that advances inside the limit is sound. -/
lemma Sound.advance (hr : r.Sound) {n : Nat} (hn : n ≤ r.ahead.length) :
    (r.advance n).Sound where
  pos_le := by
    rw [advance_pos, advance_limit, limit_eq hr]
    omega
  limit_le := hr.limit_le
  size_le := hr.size_le

/-- A sound reader whose limit is set inside the limit is sound. -/
lemma Sound.narrow (hr : r.Sound) {n : Nat} (hn : n ≤ r.ahead.length) :
    (r.narrow n).Sound where
  pos_le := by simp
  limit_le := by
    have hlimit := limit_eq hr
    have h := hr.limit_le
    rw [narrow_limit, narrow_bytes]
    omega
  size_le := hr.size_le

/-- A reader at the start of a buffer is sound. -/
lemma sound_ofBytes {bytes : Array UInt8} (h : bytes.size ≤ maxBuffer) : (ofBytes bytes).Sound :=
  ⟨Nat.zero_le _, Nat.le_refl _, h⟩

/-- At the start of a buffer, all its bytes are ahead. -/
@[simp] lemma ahead_ofBytes (bytes : Array UInt8) : (ofBytes bytes).ahead = bytes.toList := by
  simp [ahead, ofBytes]

end Reader

namespace Read

variable {ε α : Type} {r : Reader}

/-- A padded payload before the limit is answered without its padding. -/
lemma takePadded_of_le {wanted count : Nat} (hr : r.Sound) (hw : wanted ≤ count)
    (h : count ≤ r.ahead.length) :
    takePadded wanted count r = .ok (r.ahead.take wanted).toArray (r.advance count) := by
  have hlimit := Reader.limit_eq hr
  have hbytes : r.bytes.extract r.pos (r.pos + wanted) = (r.ahead.take wanted).toArray := by
    have hnarrow := Reader.ahead_narrow hr (Nat.le_trans hw h)
    rw [← hnarrow, Reader.ahead, Reader.narrow_bytes, Reader.narrow_pos, Reader.narrow_limit,
      Array.toArray_toList]
  unfold takePadded
  rw [Reader.remaining_eq hr, if_neg (by omega), hbytes]
  rfl

/-- A padded payload that crosses the limit is refused, and nothing is taken. -/
lemma takePadded_of_lt {wanted count : Nat} (hr : r.Sound) (h : r.ahead.length < count) :
    takePadded wanted count r = .error (.unexpectedEof count r.ahead.length) r := by
  unfold takePadded
  rw [Reader.remaining_eq hr, if_pos h]

/-- A block under a limit that is in reach runs on the narrowed reader, and the limit is put
back. -/
lemma within_narrow (refuse : BufferError → ε) (block : Read ε α) (hr : r.Sound) {n : Nat}
    (hn : n ≤ r.ahead.length) :
    within refuse (r.pos + n) block r =
      match block (r.narrow n) with
      | .ok a r' => .ok a { r' with limit := r.limit }
      | .error e r' => .error e { r' with limit := r.limit } := by
  have hlimit := Reader.limit_eq hr
  unfold within
  rw [if_neg (by omega), if_neg (by omega)]
  rfl

/-- A block under a limit behind the limit in force is refused. -/
lemma within_refused (refuse : BufferError → ε) (block : Read ε α) (hr : r.Sound) {n : Nat}
    (hn : r.ahead.length < n) :
    within refuse (r.pos + n) block r =
      .error (refuse (.limitExceeded (r.pos + n) r.limit)) r := by
  have hlimit := Reader.limit_eq hr
  unfold within
  rw [if_pos (by omega)]

end Read

end TaggedParcel
