import TaggedParcel.Proofs.Frame.Roundtrip

set_option relaxedAutoImplicit false
set_option autoImplicit false

/-!
# Fields one behind the other

Where fields were written one behind the other, whatever they hold, their headers are read back in
the same order, each with the id and the size that it was written with.

## Main definitions

* `FieldSequence` — the bytes of fields with certain ids and sizes.
* `FieldsUnder` — the sizes of the fields that a frame has under an id.

## Main results

* `Read.fieldHeader_of_format` — a header is read back.
* `FieldSequence.fieldHeaders` — the headers of fields are read back.
* `FieldSequence.outline` — the outline of a frame around fields.
-/

namespace TaggedParcel

/-- Fields one behind the other, each a header and a payload. Of a field its id is kept, and how
many bytes its payload takes. -/
inductive FieldSequence : List (UInt16 × Nat) → List UInt8 → Prop where
  /-- There are no fields. -/
  | nil : FieldSequence [] []
  /-- A field stands in front of others. -/
  | cons {format : FieldFormat} {id : UInt16} {payload bs : List UInt8}
    {rest : List (UInt16 × Nat)} (hadmits : format.Admits payload.length)
    (hrest : FieldSequence rest bs) :
    FieldSequence ((id, payload.length) :: rest)
      (format.header id payload.length ++ (payload ++ bs))

/-- The bytes are a frame around fields, and under the id there are fields whose payloads have
these sizes, in this order, and no other. -/
def FieldsUnder (id : UInt16) (sizes : List Nat) (bytes : Array UInt8) : Prop :=
  ∃ fields body, bytes.toList = FieldFormat.delimited.header objectMagic body.length ++ body ∧
    FieldSequence fields body ∧
    fields.filter (fun field => field.1 = id) = sizes.map fun size => (id, size)

namespace FieldFormat

/-- A header is as long as its format says. -/
lemma length_header (format : FieldFormat) (id : UInt16) (size : Nat) :
    (format.header id size).length = format.width := by
  cases format <;> simp [header, width, LittleEndian.length_digits]

end FieldFormat

namespace Read

variable {r : Reader}

/-- A header in front of other bytes is read back. -/
lemma fieldHeader_of_format (hr : r.Sound) {format : FieldFormat} {id : UInt16} {size : Nat}
    (hadmits : format.Admits size) (hfront : format.header id size <+: r.ahead) :
    ∃ header, fieldHeader r = .ok header (r.advance format.width) ∧
      header.id = id ∧ header.size = size ∧ header.payloadStart = r.pos + format.width := by
  rw [← format.length_header id size]
  cases format with
  | fixed =>
    have hword : (headerWord size id).toNat = size * 0x10000 + id.toNat :=
      headerWord_toNat (Nat.lt_trans hadmits (by decide)) id
    have hparses := Parses.fixedHeader id (show size < sizeEscape from hadmits)
    rw [hword] at hparses
    have hheader := fieldHeader_of_parses hr hparses hfront
    rw [headerWord_id (Nat.lt_trans hadmits (by decide))] at hheader
    exact hheader
  | delimited =>
    have hparses := Parses.delimitedHeader id (show size < UInt32.size from hadmits)
    rw [escapedWord_toNat] at hparses
    have hheader := fieldHeader_of_parses hr hparses hfront
    rw [escapedWord_id] at hheader
    exact hheader

end Read

namespace FieldSequence

variable {sizes sizes' : List (UInt16 × Nat)} {bs bs' : List UInt8}

/-- Fields stand behind other fields. -/
lemma append (h : FieldSequence sizes bs) (h' : FieldSequence sizes' bs') :
    FieldSequence (sizes ++ sizes') (bs ++ bs') := by
  induction h with
  | nil => exact h'
  | cons hadmits _ ih =>
    rw [List.append_assoc, List.append_assoc, List.cons_append]
    exact .cons hadmits ih

/-- A header and a payload are one field. -/
lemma single {format : FieldFormat} {id : UInt16} {payload : List UInt8}
    (hadmits : format.Admits payload.length) :
    FieldSequence [(id, payload.length)] (format.header id payload.length ++ payload) := by
  have h : FieldSequence [(id, payload.length)]
      (format.header id payload.length ++ (payload ++ [])) := .cons hadmits .nil
  rw [List.append_nil] at h
  exact h

/-- The headers of fields up to the limit are read back.

**Proof sketch.** Induction on the fields. Each header is read back, and its size says where the
next field starts. -/
theorem fieldHeaders (h : FieldSequence sizes bs) {r : Reader} (hr : r.Sound)
    (hahead : r.ahead = bs) {fuel : Nat} (hfuel : bs.length ≤ fuel) :
    ∃ headers, Read.fieldHeaders r.limit fuel r = .ok headers (r.advance bs.length) ∧
      headers.map (fun header => (header.id, header.size)) = sizes := by
  induction h generalizing r fuel with
  | nil =>
    have hlimit := Reader.limit_eq hr
    rw [hahead, List.length_nil] at hlimit
    exact ⟨[], Read.fieldHeaders_end fuel hlimit.symm, rfl⟩
  | @cons format id payload bs rest hadmits hrest ih =>
    have hlimit := Reader.limit_eq hr
    have hfront : format.header id payload.length <+: r.ahead := by
      rw [hahead]
      exact List.prefix_append _ _
    have hlength : r.ahead.length = format.width + (payload.length + bs.length) := by
      rw [hahead, List.length_append, List.length_append, format.length_header]
    have hwidth : 4 ≤ format.width := by cases format <;> decide
    obtain ⟨header, hread, hid, hsize, hstart⟩ := Read.fieldHeader_of_format hr hadmits hfront
    have hstop : header.stop ≤ r.limit := (FieldHeader.stop_le_iff hr hstart).mpr (by omega)
    have hend := FieldHeader.stop_eq hr hstop
    -- behind the payload the other fields are ahead
    have hrest' : (r.advance (format.width + payload.length)).ahead = bs := by
      rw [Reader.ahead_advance, hahead, ← format.length_header id payload.length,
        List.drop_append, List.drop_append]
      simp
    cases fuel with
    | zero =>
      rw [← hahead] at hfuel
      omega
    | succ fuel =>
      rcases Read.fieldHeaders_step fuel hr (by omega) with
        ⟨header', n, -, -, -, hread', hstep⟩ | ⟨c, n, -, hread', -⟩
      · injection hread.symm.trans hread' with hsame
        subst hsame
        rcases hstep with ⟨-, hstep⟩ | ⟨hover, -⟩
        · obtain ⟨headers, hheaders, hmap⟩ := ih
            (hr.advance (show format.width + payload.length ≤ r.ahead.length by omega)) hrest'
            (show bs.length ≤ fuel by rw [← hahead] at hfuel; omega)
          rw [show header.stop - r.pos = format.width + payload.length by omega,
            ← Reader.advance_limit, hheaders, Reader.advance_limit, Reader.advance_advance,
            Nat.add_assoc, ← hlength, hahead] at hstep
          refine ⟨header :: headers, hstep, ?_⟩
          rw [List.map_cons, hmap, hid, hsize]
        · omega
      · rw [hread] at hread'
        cases hread'

/-- The outline of a frame that is written around fields: it ends behind them, and has their
headers. -/
theorem outline (h : FieldSequence sizes bs) {bytes : Array UInt8}
    (hbytes : bytes.toList = FieldFormat.delimited.header objectMagic bs.length ++ bs)
    (hfits : bs.length < UInt32.size) :
    ∃ frame, Read.outline (.ofBytes bytes) = .ok frame ((Reader.ofBytes bytes).advance bytes.size) ∧
      frame.headers.map (fun header => (header.id, header.size)) = sizes := by
  have hahead : (Reader.ofBytes bytes).ahead =
      FieldFormat.delimited.header objectMagic bs.length ++ bs := by
    rw [Reader.ahead_ofBytes, hbytes]
  have hlength : (Reader.ofBytes bytes).ahead.length = 8 + bs.length := by
    rw [hahead, List.length_append, FieldFormat.length_header]
    rfl
  have hsize : bytes.size = 8 + bs.length := by
    rw [← hlength, Reader.ahead_ofBytes, Array.length_toList]
  have hmax : 8 + UInt32.size ≤ maxBuffer := by decide
  have hr : (Reader.ofBytes bytes).Sound := Reader.sound_ofBytes (by omega)
  have hread : Read.objectHeader (.ofBytes bytes) =
      .ok (0 + 8 + bs.length) ((Reader.ofBytes bytes).advance 8) := by
    refine Read.objectHeader_of_prefix hr hfits ?_
    rw [hahead, objectWord_toNat, ← List.append_assoc]
    exact List.prefix_rfl
  have hadvance := hr.advance (show 8 ≤ (Reader.ofBytes bytes).ahead.length by omega)
  have hroom : bs.length ≤ ((Reader.ofBytes bytes).advance 8).ahead.length := by
    rw [Reader.ahead_advance, List.length_drop]
    omega
  have hbody : (((Reader.ofBytes bytes).advance 8).narrow bs.length).ahead = bs := by
    rw [Reader.ahead_narrow hadvance hroom, Reader.ahead_advance, hahead]
    exact List.take_of_length_le (Nat.le_refl bs.length)
  obtain ⟨headers, hheaders, hmap⟩ :=
    h.fieldHeaders (hadvance.narrow hroom) hbody (Nat.le_refl _)
  refine ⟨⟨0 + 8 + bs.length, headers⟩, ?_, hmap⟩
  rw [Read.outline_eq hr (Nat.le_of_eq hlength.symm) hread]
  rw [Reader.narrow_limit, Reader.advance_pos] at hheaders
  rw [show Read.fieldHeaders ((Reader.ofBytes bytes).pos + 8 + bs.length) bs.length _ = _
    from hheaders, hsize]
  simp only [Reader.advance, Reader.narrow, Reader.ofBytes, Nat.add_assoc]

end FieldSequence

end TaggedParcel
