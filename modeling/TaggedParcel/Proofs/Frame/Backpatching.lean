import TaggedParcel.Proofs.Buffer.Items
import TaggedParcel.Proofs.Buffer.Patching
import TaggedParcel.Proofs.Frame.Roundtrip

set_option relaxedAutoImplicit false
set_option autoImplicit false

/-!
# Programs of writes patch exactly

A program on a writer may close a field or an object whenever it likes: twice, after bytes were cut
off, or when other bytes stand where the mark points. Whether closing succeeds is told by the mark
and the position alone, and what it changes is the word of the mark's slot. The size that it gives
is the distance from the payload's start to the position, and where this would be negative closing
fails.

## Main definitions

* `WriterOp` — the operations on a writer.
* `WriterProgram` — programs of operations, which go on after failures.
* `WriterProgram.run`, `WriterProgram.trace` — what a program leaves, and what happens on the way.
* `Writer.Revisited`, `WriterOp.Exact` — what is promised of going back to a slot, and of every
  operation.
* `WriterOp.Reaches` — operations that may change a byte that was written before.

## Main results

* `WriterOp.outcome_exact`, `WriterOp.Exact.getElem?_eq` — what one operation does, and which bytes
  it keeps.
* `WriterProgram.run_exact` — so it is with every operation of a program, and a program keeps the
  bytes that none of its operations reaches.
-/

namespace TaggedParcel

/-! ## Operations -/

/-- The operations on a writer. -/
inductive WriterOp where
  | position
  | item (value : Item)
  | length (count : Nat)
  | raw (bytes : List UInt8)
  | fieldHeader (id : UInt16) (size : Nat)
  | nullField (id : UInt16)
  | truncate (stop : Nat)
  | reserve
  | beginField (id : UInt16)
  | beginObject
  | patch (slot : Slot) (n : UInt32)
  | finishField (mark : FieldMark)
  | finishObject (mark : ObjectMark)

namespace WriterOp

/-- What an operation answers. -/
def Answer : WriterOp → Type
  | position => Nat
  | reserve => Slot
  | beginField _ => FieldMark
  | beginObject => ObjectMark
  | item _ | length _ | raw _ | fieldHeader _ _ | nullField _ | truncate _ | patch _ _
  | finishField _ | finishObject _ => Unit

/-- What an operation does. -/
def step : (op : WriterOp) → Write FrameError op.Answer
  | position => Write.position
  | item value => Write.mapError .buffer value.write
  | length count => Write.mapError .buffer (Write.length count)
  | raw bytes => Write.raw bytes
  | fieldHeader id size => Write.fieldHeader id size
  | nullField id => Write.nullField id
  | truncate stop => Write.truncate stop
  | reserve => Write.reserve
  | beginField id => Write.beginField id
  | beginObject => Write.beginObject
  | patch slot n => Write.mapError .buffer (Write.patch slot n)
  | finishField mark => Write.finishField mark
  | finishObject mark => Write.finishObject mark

end WriterOp

namespace Writer

/-- Bytes are appended, or nothing changes. -/
def Extended (before : Writer) (result : Except FrameError Unit) (after : Writer) : Prop :=
  (∃ bs, result = .ok () ∧ after = before.append bs) ∨ ∃ e, result = .error e ∧ after = before

/-- Going back to a slot with a number succeeds just when it may, and then patches the slot.
Otherwise nothing changes. -/
structure Revisited (before : Writer) (slot : Slot) (n : Nat) (may : Prop)
    (result : Except FrameError Unit) (after : Writer) : Prop where
  succeeds : result = .ok () ↔ may
  patched : result = .ok () → before.Patched after slot n
  kept : ∀ e, result = .error e → after = before ∧
    e = .buffer (if slot.stop ≤ before.position then .lengthOverflow n
      else .invalidSlot slot.offset before.position)

end Writer

namespace WriterOp

/-- What is promised of an operation. A word is patched just when its slot lies inside the buffer.
A mark is finished just when the position is not in front of its payload and not too far behind it,
and then its slot gets the number of bytes between them. -/
def Exact (before after : Writer) : (op : WriterOp) → Except FrameError op.Answer → Prop
  | position, result => result = .ok before.position ∧ after = before
  | item _, result => before.Extended result after
  | length _, result => before.Extended result after
  | raw bytes, result => result = .ok () ∧ after = before.append bytes
  | fieldHeader _ _, result => before.Extended result after
  | nullField _, result => before.Extended result after
  | truncate stop, result => result = .ok () ∧ after.bytes = before.bytes.extract 0 stop
  | reserve, result => result = .ok ⟨before.position⟩ ∧
    after = before.append (LittleEndian.digits 4 0)
  | beginField id, result => result = .ok ⟨id, ⟨before.position + 4⟩⟩ ∧
    after = before.append (FieldFormat.delimited.header id 0)
  | beginObject, result => result = .ok ⟨before.position, ⟨before.position + 4⟩⟩ ∧
    after = before.append (FieldFormat.delimited.header objectMagic 0)
  | patch slot n, result =>
    before.Revisited slot n.toNat (slot.stop ≤ before.position) result after
  | finishField mark, result =>
    before.Revisited mark.slot (before.position - mark.payloadStart)
      (mark.payloadStart ≤ before.position ∧
        before.position - mark.payloadStart < UInt32.size) result after
  | finishObject mark, result =>
    before.Revisited mark.slot (before.position - mark.slot.stop)
      (mark.slot.stop ≤ before.position ∧
        before.position - mark.slot.stop < UInt32.size) result after

/-- Operations that may change the byte at an offset, if it has been written before. -/
def Reaches (i : Nat) : WriterOp → Prop
  | truncate stop => stop ≤ i
  | patch slot _ => slot.offset ≤ i ∧ i < slot.stop
  | finishField mark => mark.slot.offset ≤ i ∧ i < mark.slot.stop
  | finishObject mark => mark.slot.offset ≤ i ∧ i < mark.slot.stop
  | _ => False

end WriterOp

/-! ## One operation -/

namespace Write

variable {w : Writer}

/-- A step that appends its bytes extends a writer. -/
lemma Emits.extended {write : Write FrameError Unit} {bs : List UInt8}
    (h : Emits write (.ok bs)) : w.Extended (outcome write w).1 (outcome write w).2 := by
  rw [outcome, h w]
  exact .inl ⟨bs, rfl, rfl⟩

/-- A step that leaves the writer as it is when it fails does no more than extend it. -/
lemma extended_of_error {write : Write FrameError Unit} {e : FrameError}
    (h : write w = .error e w) : w.Extended (outcome write w).1 (outcome write w).2 := by
  rw [outcome, h]
  exact .inr ⟨e, rfl, rfl⟩

/-- A length that does not fit leaves nothing, and neither does what would come behind it. -/
lemma length_error {count : Nat} (h : ¬ count ≤ maxLength) (next : Unit → Write BufferError Unit) :
    (length count >>= next) w = .error (.lengthOverflow count) w := by
  rw [bind_apply, Write.length, if_neg h]
  rfl

/-- A length and bytes behind it extend a writer, or do not if the length does not fit. -/
lemma extended_lengthRaw (count : Nat) (bs : List UInt8) (w : Writer) :
    w.Extended (outcome (mapError FrameError.buffer (length count >>= fun _ => raw bs)) w).1
      (outcome (mapError FrameError.buffer (length count >>= fun _ => raw bs)) w).2 := by
  by_cases h : count ≤ maxLength
  · exact (((Emits.length h).bind (Emits.raw bs)).mapError FrameError.buffer).extended
  · refine extended_of_error (e := .buffer (.lengthOverflow count)) ?_
    rw [mapError, length_error h]

/-- A length extends a writer, or does not if it does not fit. -/
lemma extended_length (count : Nat) (w : Writer) :
    w.Extended (outcome (mapError FrameError.buffer (length count)) w).1
      (outcome (mapError FrameError.buffer (length count)) w).2 := by
  by_cases h : count ≤ maxLength
  · exact ((Emits.length h).mapError FrameError.buffer).extended
  · refine extended_of_error (e := .buffer (.lengthOverflow count)) ?_
    rw [mapError, Write.length, if_neg h]
    rfl

/-- A value extends a writer, or does not if its length does not fit. -/
lemma extended_item (value : Item) (w : Writer) :
    w.Extended (outcome (mapError FrameError.buffer value.write) w).1
      (outcome (mapError FrameError.buffer value.write) w).2 := by
  cases value with
  | byteArray bytes? =>
    cases bytes? with
    | none => exact .inl ⟨_, rfl, rfl⟩
    | some bytes =>
      rw [Item.write, byteArray_eq]
      exact extended_lengthRaw _ _ w
  | string16 text? =>
    cases text? with
    | none => exact .inl ⟨_, rfl, rfl⟩
    | some text =>
      rw [Item.write, string16_eq]
      exact extended_lengthRaw _ _ w
  | _ => exact .inl ⟨_, rfl, rfl⟩

/-- A header extends a writer, or does not if the size does not fit. -/
lemma extended_fieldHeader (id : UInt16) (size : Nat) (w : Writer) :
    w.Extended (outcome (fieldHeader id size) w).1 (outcome (fieldHeader id size) w).2 := by
  unfold fieldHeader
  split
  · exact .inr ⟨_, rfl, rfl⟩
  · split
    · exact .inl ⟨_, rfl, rfl⟩
    · exact ((Emits.raw _).bind (Emits.raw _)).extended

/-- Going back to a slot fails when it may not succeed, and leaves the writer as it is. -/
lemma revisited_of_error {slot : Slot} {n : Nat} {may : Prop} {e : FrameError} (hmay : ¬ may)
    (he : e = .buffer (if slot.stop ≤ w.position then .lengthOverflow n
      else .invalidSlot slot.offset w.position)) :
    w.Revisited slot n may (.error e) w where
  succeeds := iff_of_false (fun h => by cases h) hmay
  patched := fun h => by cases h
  kept := fun e' he' => by
    cases he'
    exact ⟨rfl, he⟩

/-- Going back to a slot patches it when it may succeed. -/
lemma revisited_of_patched {slot : Slot} {n : Nat} {may : Prop} {w' : Writer} (hmay : may)
    (hpatched : w.Patched w' slot n) : w.Revisited slot n may (.ok ()) w' where
  succeeds := iff_of_true rfl hmay
  patched := fun _ => hpatched
  kept := fun e he => by cases he

/-- A word is patched just when its slot lies inside the buffer. -/
lemma patch_revisited (slot : Slot) (n : UInt32) (w : Writer) :
    w.Revisited slot n.toNat (slot.stop ≤ w.position)
      (outcome (mapError FrameError.buffer (patch slot n)) w).1
      (outcome (mapError FrameError.buffer (patch slot n)) w).2 := by
  rw [outcome, mapError]
  rcases patch_cases slot n w with ⟨hroom, w', hpatch, hpatched⟩ | ⟨hover, hpatch⟩
  · rw [hpatch]
    exact revisited_of_patched hroom hpatched
  · rw [hpatch]
    refine revisited_of_error (Nat.not_le_of_lt hover) ?_
    rw [if_neg (Nat.not_le_of_lt hover)]

/-- Closing what was opened at a slot goes back to the slot with the distance to the position. -/
lemma patchExtent_revisited (slot : Slot) (w : Writer) :
    w.Revisited slot (w.position - slot.stop)
      (slot.stop ≤ w.position ∧ w.position - slot.stop < UInt32.size)
      (outcome (patchExtent slot) w).1 (outcome (patchExtent slot) w).2 := by
  have hrun : patchExtent slot w =
      mapError .buffer (patchSize slot (w.position - slot.stop)) w := rfl
  rw [outcome, hrun, mapError]
  rcases patchSize_cases slot (w.position - slot.stop) w with
    ⟨hroom, hfits, w', hpatch, hpatched⟩ | ⟨hover, -, hpatch⟩ | ⟨hlarge, hpatch⟩
  · rw [hpatch]
    exact revisited_of_patched ⟨hroom, hfits⟩ hpatched
  · -- the distance is cut off at zero, but then the slot is not inside the buffer
    rw [hpatch]
    refine revisited_of_error (fun h => Nat.not_le_of_lt hover h.1) ?_
    rw [if_neg (Nat.not_le_of_lt hover)]
  · have hroom : slot.stop ≤ w.position := by
      have hpos : 0 < UInt32.size := by decide
      omega
    rw [hpatch]
    refine revisited_of_error (fun h => Nat.not_lt_of_le hlarge h.2) ?_
    rw [if_pos hroom]

end Write

namespace Writer

variable {before after : Writer} {result : Except FrameError Unit} {i : Nat}

/-- Appending leaves the bytes that were there. -/
lemma append_getElem? (hi : i < before.position) (bs : List UInt8) :
    i < (before.append bs).position ∧ (before.append bs).bytes[i]? = before.bytes[i]? := by
  have hlength : before.bytes.toList.length = before.position := rfl
  rw [position_append, append_eq_toArray, List.getElem?_toArray,
    List.getElem?_append_left (by omega), Array.getElem?_toList]
  exact ⟨by omega, rfl⟩

/-- An operation that extends the buffer leaves the bytes that were there. -/
lemma Extended.getElem?_eq (h : before.Extended result after) (hi : i < before.position) :
    i < after.position ∧ after.bytes[i]? = before.bytes[i]? := by
  rcases h with ⟨bs, -, rfl⟩ | ⟨e, -, rfl⟩
  · exact append_getElem? hi bs
  · exact ⟨hi, rfl⟩

/-- An operation that goes back to a slot leaves the bytes outside of it. -/
lemma Revisited.getElem?_eq {slot : Slot} {n : Nat} {may : Prop}
    (h : before.Revisited slot n may result after) (hi : i < before.position)
    (houtside : ¬ (slot.offset ≤ i ∧ i < slot.stop)) :
    i < after.position ∧ after.bytes[i]? = before.bytes[i]? := by
  cases result with
  | ok answer =>
    have hpatched := h.patched rfl
    exact ⟨hpatched.position_eq ▸ hi, hpatched.rest i (by omega)⟩
  | error e =>
    obtain ⟨rfl, -⟩ := h.kept e rfl
    exact ⟨hi, rfl⟩

end Writer

namespace WriterOp

/-- Every operation does just what is promised of it. -/
theorem outcome_exact (op : WriterOp) (w : Writer) :
    op.Exact w (op.step.outcome w).2 (op.step.outcome w).1 := by
  cases op with
  | position => exact ⟨rfl, rfl⟩
  | item value => exact Write.extended_item value w
  | length count => exact Write.extended_length count w
  | raw bytes => exact ⟨rfl, rfl⟩
  | fieldHeader id size => exact Write.extended_fieldHeader id size w
  | nullField id => exact .inl ⟨_, rfl, rfl⟩
  | truncate stop =>
    refine ⟨rfl, ?_⟩
    show (w.buffer.extract 0 stop).data = _
    rw [ByteArray.data_extract]
    rfl
  | reserve => exact ⟨rfl, rfl⟩
  | beginField id =>
    refine ⟨?_, ?_⟩
    · show Except.ok _ = _
      rw [Writer.position_append]
      rfl
    · rw [FieldFormat.header, ← escapedWord_toNat, ← Writer.append_append]
      rfl
  | beginObject =>
    refine ⟨?_, ?_⟩
    · show Except.ok _ = _
      rw [Writer.position_append]
      rfl
    · rw [FieldFormat.header, ← objectWord_toNat, ← Writer.append_append]
      rfl
  | patch slot n => exact Write.patch_revisited slot n w
  | finishField mark => exact Write.patchExtent_revisited mark.slot w
  | finishObject mark => exact Write.patchExtent_revisited mark.slot w

variable {op : WriterOp} {before after : Writer} {result : Except FrameError op.Answer} {i : Nat}

/-- An operation keeps the bytes that it does not reach. -/
lemma Exact.getElem?_eq (h : op.Exact before after result) (hi : i < before.position)
    (hreach : ¬ op.Reaches i) : i < after.position ∧ after.bytes[i]? = before.bytes[i]? := by
  cases op with
  | position =>
    obtain ⟨-, rfl⟩ := h
    exact ⟨hi, rfl⟩
  | item value => exact Writer.Extended.getElem?_eq h hi
  | length count => exact Writer.Extended.getElem?_eq h hi
  | raw bytes => exact h.2 ▸ Writer.append_getElem? hi bytes
  | fieldHeader id size => exact Writer.Extended.getElem?_eq h hi
  | nullField id => exact Writer.Extended.getElem?_eq h hi
  | truncate stop =>
    have hstop : i < min stop before.position - 0 :=
      Nat.lt_min.mpr ⟨Nat.lt_of_not_le hreach, hi⟩
    have hsize : after.position = min stop before.position - 0 :=
      (congrArg Array.size h.2).trans Array.size_extract
    have hlt : i < min stop before.bytes.size - 0 := hstop
    refine ⟨hsize ▸ hstop, ?_⟩
    rw [h.2, Array.getElem?_extract, if_pos hlt, Nat.zero_add]
  | reserve => exact h.2 ▸ Writer.append_getElem? hi _
  | beginField id => exact h.2 ▸ Writer.append_getElem? hi _
  | beginObject => exact h.2 ▸ Writer.append_getElem? hi _
  | patch slot n => exact Writer.Revisited.getElem?_eq h hi hreach
  | finishField mark => exact Writer.Revisited.getElem?_eq h hi hreach
  | finishObject mark => exact Writer.Revisited.getElem?_eq h hi hreach

end WriterOp

/-! ## Programs -/

/-- Programs on a writer. What comes behind an operation is chosen by its answer, for example a slot
that it reserved, or by its failure. -/
inductive WriterProgram where
  /-- The program is over. -/
  | done
  /-- An operation. -/
  | call (op : WriterOp) (next : Except FrameError op.Answer → WriterProgram)

/-- What happens when an operation is run. -/
structure WriterEvent where
  /-- The operation. -/
  op : WriterOp
  /-- What it answers, or why it fails. -/
  result : Except FrameError op.Answer
  /-- The writer before. -/
  before : Writer
  /-- The writer after. -/
  after : Writer

/-- Events one behind the other, from one writer to another. -/
inductive WriterEvent.Path : Writer → List WriterEvent → Writer → Prop where
  /-- Nothing happens. -/
  | nil (w : Writer) : Path w [] w
  /-- An event, and events that start where it ends. -/
  | cons (event : WriterEvent) {rest : List WriterEvent} {w : Writer}
    (hrest : Path event.after rest w) : Path event.before (event :: rest) w

/-- Events one behind the other keep the bytes that none of them reaches. -/
lemma WriterEvent.Path.getElem?_eq {w w' : Writer} {events : List WriterEvent}
    (h : Path w events w') (hexact : ∀ e ∈ events, e.op.Exact e.before e.after e.result) {i : Nat}
    (hi : i < w.position) (hreach : ∀ e ∈ events, ¬ e.op.Reaches i) :
    w'.bytes[i]? = w.bytes[i]? := by
  induction h with
  | nil => rfl
  | cons event _ ih =>
    rw [List.forall_mem_cons] at hexact hreach
    obtain ⟨hkept, hbyte⟩ := hexact.1.getElem?_eq hi hreach.1
    exact (ih hexact.2 hkept hreach.2).trans hbyte

namespace WriterProgram

/-- Runs a program. -/
def run : WriterProgram → Writer → Writer
  | done, w => w
  | call op next, w =>
    let seen := op.step.outcome w
    (next seen.1).run seen.2

/-- What happens while a program runs, in order. -/
def trace : WriterProgram → Writer → List WriterEvent
  | done, _ => []
  | call op next, w =>
    let seen := op.step.outcome w
    ⟨op, seen.1, w, seen.2⟩ :: (next seen.1).trace seen.2

/-- What happens while a program runs leads from the first writer to the last one. -/
lemma trace_path (p : WriterProgram) (w : Writer) :
    WriterEvent.Path w (p.trace w) (p.run w) := by
  induction p generalizing w with
  | done => exact .nil w
  | call op next ih =>
    have hrest := ih (op.step.outcome w).1 (op.step.outcome w).2
    exact .cons ⟨op, (op.step.outcome w).1, w, (op.step.outcome w).2⟩ hrest

/-- Every operation of a program does what is promised of it. -/
lemma trace_exact (p : WriterProgram) (w : Writer) :
    ∀ e ∈ p.trace w, e.op.Exact e.before e.after e.result := by
  induction p generalizing w with
  | done => exact fun e he => absurd he List.not_mem_nil
  | call op next ih =>
    have hrest := ih (op.step.outcome w).1 (op.step.outcome w).2
    exact List.forall_mem_cons.mpr ⟨op.outcome_exact w, hrest⟩

/-- A program patches exactly, whatever it writes, cuts off and patches in between, and however
often it uses a slot or a mark. A word is patched just when its four bytes lie inside the buffer,
and a mark is finished just when the position is at the start of its payload or behind it, by as
many bytes as a word can count. In these cases the word of the slot becomes the value that was given
or the number of bytes from the start of the payload to the position, and the length and all other
bytes stay as they are. Otherwise the buffer stays as it is. So a byte that no operation reaches is
the same in the end.

**Proof sketch.** One operation does what is promised of it from any writer. A mark that points
behind the position would get the size zero, but its slot then ends behind the position as well,
and is refused. Induction on the program, and on what happens while it runs. -/
theorem run_exact (p : WriterProgram) (w : Writer) :
    WriterEvent.Path w (p.trace w) (p.run w) ∧
      (∀ e ∈ p.trace w, e.op.Exact e.before e.after e.result) ∧
      ∀ i < w.position, (∀ e ∈ p.trace w, ¬ e.op.Reaches i) →
        (p.run w).bytes[i]? = w.bytes[i]? :=
  ⟨p.trace_path w, p.trace_exact w, fun _ hi hreach =>
    (p.trace_path w).getElem?_eq (p.trace_exact w) hi hreach⟩

/-- Finishes a field after its payload was replaced by other bytes, and again after its slot was cut
off. -/
def stale : WriterProgram :=
  call (.beginField 7) fun
    | .ok mark =>
      call (.raw [1, 2, 3]) fun _ => call (.truncate mark.payloadStart) fun _ =>
        call (.raw [4]) fun _ => call (.finishField mark) fun _ =>
          call (.truncate 4) fun _ => call (.finishField mark) fun _ => done
    | .error _ => done

example : (stale.trace .empty).map (fun e => e.after.bytes.toList) =
    [[7, 0, 0xFF, 0xFF, 0, 0, 0, 0], [7, 0, 0xFF, 0xFF, 0, 0, 0, 0, 1, 2, 3],
      [7, 0, 0xFF, 0xFF, 0, 0, 0, 0], [7, 0, 0xFF, 0xFF, 0, 0, 0, 0, 4],
      [7, 0, 0xFF, 0xFF, 1, 0, 0, 0, 4], [7, 0, 0xFF, 0xFF], [7, 0, 0xFF, 0xFF]] := by
  decide

end WriterProgram

end TaggedParcel
