import TaggedParcel.Proofs.Buffer.Roundtrip

set_option relaxedAutoImplicit false
set_option autoImplicit false

/-!
# What a patch changes

A slot is an offset and no more. It outlives the word that was reserved for it, so that a patch may
hit bytes that were written later, or find that the buffer ends before the slot does. In the first
case it changes the four bytes of the slot and nothing else, in the second one nothing at all.

## Main definitions

* `Write.outcome` — what a step answers, or why it fails, and the writer that it leaves.
* `Writer.Patched` — a writer in which the word of a slot got a value.

## Main results

* `overwrite_eq` — the buffer with some of its bytes replaced.
* `Write.patch_cases`, `Write.patchSize_cases` — what a patch can do.
-/

namespace TaggedParcel

/-- What a step answers, or why it fails, and the writer that it leaves. -/
def Write.outcome {ε α : Type} (step : Write ε α) (w : Writer) : Except ε α × Writer :=
  match step w with
  | .ok a w' => (.ok a, w')
  | .error e w' => (.error e, w')

/-- A writer in which the word of a slot got a value: as long as before, and with the same bytes
but for those of the slot. -/
structure Writer.Patched (before after : Writer) (slot : Slot) (n : Nat) : Prop where
  position_eq : after.position = before.position
  /-- The bytes of the slot are those of the value. -/
  word : (after.bytes.extract slot.offset slot.stop).toList = LittleEndian.digits 4 n
  /-- The other bytes are as they were. -/
  rest : ∀ i, i < slot.offset ∨ slot.stop ≤ i → after.bytes[i]? = before.bytes[i]?

/-- Replacing bytes inside a buffer leaves what is in front of them and behind them. -/
lemma overwrite_eq {buffer : ByteArray} {offset : Nat} {new : List UInt8}
    (h : offset + new.length ≤ buffer.size) :
    overwrite buffer offset new = ⟨(buffer.data.toList.take offset ++
      (new ++ buffer.data.toList.drop (offset + new.length))).toArray⟩ := by
  have hsize : buffer.data.toList.length = buffer.size := rfl
  have hfront : (buffer.data.toList.take offset).length = offset := by
    rw [List.length_take]
    omega
  have hold : ((buffer.data.toList.drop offset).take new.length).length = new.length := by
    rw [List.length_take, List.length_drop]
    omega
  have hsplit : buffer = ⟨(buffer.data.toList.take offset ++
      ((buffer.data.toList.drop offset).take new.length ++
        buffer.data.toList.drop (offset + new.length))).toArray⟩ := by
    rw [← List.drop_drop, List.take_append_drop, List.take_append_drop]
  have hover := overwrite_append (buffer.data.toList.take offset) _ new
    (buffer.data.toList.drop (offset + new.length)) hold
  rw [hfront, ← hsplit] at hover
  exact hover

/-- Overwriting the word of a slot inside the buffer patches it. -/
lemma Writer.patched_overwrite {w : Writer} {slot : Slot} (h : slot.stop ≤ w.position) (n : Nat) :
    w.Patched ⟨overwrite w.buffer slot.offset (LittleEndian.digits 4 n)⟩ slot n := by
  have hroom : slot.offset + (LittleEndian.digits 4 n).length ≤ w.buffer.size := by
    rw [LittleEndian.length_digits]
    exact h
  have hlength : w.bytes.toList.length = w.position := rfl
  have hfront : (w.bytes.toList.take slot.offset).length = slot.offset := by
    rw [List.length_take]
    simp only [Slot.stop] at h
    omega
  have hbytes :
      (Writer.mk (overwrite w.buffer slot.offset (LittleEndian.digits 4 n))).bytes.toList =
        w.bytes.toList.take slot.offset ++
          (LittleEndian.digits 4 n ++ w.bytes.toList.drop slot.stop) := by
    rw [overwrite_eq hroom, LittleEndian.length_digits]
    rfl
  generalize Writer.mk (overwrite w.buffer slot.offset (LittleEndian.digits 4 n)) = after
    at hbytes ⊢
  refine ⟨?_, ?_, fun i hi => ?_⟩
  · have hafter := congrArg List.length hbytes
    rw [List.length_append, List.length_append, hfront, LittleEndian.length_digits,
      List.length_drop, hlength] at hafter
    have hposition : after.bytes.toList.length = after.position := rfl
    simp only [Slot.stop] at h hafter
    omega
  · have hwidth : slot.stop - slot.offset = (LittleEndian.digits 4 n).length := by
      rw [LittleEndian.length_digits, Slot.stop]
      omega
    rw [Array.toList_extract, List.extract_eq_take_drop, hbytes, List.drop_left' hfront, hwidth,
      List.take_left']
    rfl
  · rw [← Array.getElem?_toList, ← Array.getElem?_toList, hbytes]
    rcases hi with hi | hi
    · rw [List.getElem?_append_left (by omega), List.getElem?_take_of_lt hi]
    · have hbehind : 4 ≤ i - slot.offset := by
        simp only [Slot.stop] at hi
        omega
      have hindex : slot.stop + (i - slot.offset - 4) = i := by
        simp only [Slot.stop]
        omega
      rw [List.getElem?_append_right (by omega), hfront,
        List.getElem?_append_right (by rwa [LittleEndian.length_digits]),
        LittleEndian.length_digits, List.getElem?_drop, hindex]

namespace Write

/-- A patch changes the word of the slot, if this lies inside the buffer, and else nothing. -/
lemma patch_cases (slot : Slot) (n : UInt32) (w : Writer) :
    (slot.stop ≤ w.position ∧ ∃ w', patch slot n w = .ok () w' ∧ w.Patched w' slot n.toNat) ∨
      (w.position < slot.stop ∧
        patch slot n w = .error (.invalidSlot slot.offset w.position) w) := by
  by_cases h : slot.stop ≤ w.position
  · exact .inl ⟨h, _, patch_apply h n, Writer.patched_overwrite h n.toNat⟩
  · exact .inr ⟨Nat.lt_of_not_le h, if_neg h⟩

/-- A patch with a size changes the word of the slot, if this lies inside the buffer and the size
fits it, and else nothing. -/
lemma patchSize_cases (slot : Slot) (size : Nat) (w : Writer) :
    (slot.stop ≤ w.position ∧ size < UInt32.size ∧
      ∃ w', patchSize slot size w = .ok () w' ∧ w.Patched w' slot size) ∨
    (w.position < slot.stop ∧ size < UInt32.size ∧
      patchSize slot size w = .error (.invalidSlot slot.offset w.position) w) ∨
    (UInt32.size ≤ size ∧ patchSize slot size w = .error (.lengthOverflow size) w) := by
  unfold patchSize
  by_cases hsize : size < UInt32.size
  · have hword : (UInt32.ofNat size).toNat = size := UInt32.toNat_ofNat_of_lt' hsize
    rw [if_pos hsize]
    rcases patch_cases slot (UInt32.ofNat size) w with ⟨hroom, w', hrun, hpatched⟩ | ⟨hover, hrun⟩
    · rw [hword] at hpatched
      exact .inl ⟨hroom, hsize, w', hrun, hpatched⟩
    · exact .inr (.inl ⟨hover, hsize, hrun⟩)
  · rw [if_neg hsize]
    exact .inr (.inr ⟨Nat.le_of_not_lt hsize, rfl⟩)

end Write

end TaggedParcel
