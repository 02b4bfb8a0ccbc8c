import TaggedParcel.Proofs.Buffer.Roundtrip
import TaggedParcel.Proofs.Frame.Outline

set_option relaxedAutoImplicit false
set_option autoImplicit false

/-!
# Reading back headers

A header word keeps an id and a size apart, and an escaped size is read from the word behind
it. What a header says is thus read back, wherever the header lies.

## Main definitions

* `FieldFormat.header` — the bytes of a header.

## Main results

* `Read.Parses.fixedHeader`, `Read.Parses.delimitedHeader` — the two forms of a header.
* `Read.fieldHeader_of_parses` — the header of a field.
* `Read.objectHeader_of_prefix` — the header of an object.
* `FieldHeader.window_of_prefix` — behind the header of a field its payload.
-/

namespace TaggedParcel

namespace FieldFormat

/-- How many bytes a header takes. -/
def width : FieldFormat → Nat
  | .fixed => 4
  | .delimited => 8

/-- The sizes that a header can hold: they fit the high half of its word, less the escape, or a
word of their own. -/
def Admits : FieldFormat → Nat → Prop
  | .fixed, size => size < 0xFFFF
  | .delimited, size => size < UInt32.size

/-- The bytes of a header: a word with the size in its high half and the id in its low half, or
one with the escape in its high half, and the size in the word behind it. -/
def header : FieldFormat → (id : UInt16) → (size : Nat) → List UInt8
  | .fixed, id, size => LittleEndian.digits 4 (size * 0x10000 + id.toNat)
  | .delimited, id, size =>
    LittleEndian.digits 4 (0xFFFF * 0x10000 + id.toNat) ++ LittleEndian.digits 4 size

end FieldFormat

/-! ## Header words -/

/-- A header word is its high half and, below it, the id. -/
lemma headerWord_toNat {high : Nat} (h : high < 65536) (id : UInt16) :
    (headerWord high id).toNat = high * 65536 + id.toNat := by
  have hid : id.toNat < 65536 := id.toNat_lt
  exact UInt32.toNat_ofNat_of_lt' (by
    simp only [UInt32.size]
    omega)

/-- The word of a field whose size follows. -/
lemma escapedWord_toNat (id : UInt16) : (escapedWord id).toNat = 0xFFFF * 0x10000 + id.toNat :=
  headerWord_toNat (by decide) id

/-- The word of an object. -/
lemma objectWord_toNat : objectWord.toNat = 0xFFFF * 0x10000 + objectMagic.toNat :=
  escapedWord_toNat objectMagic

/-- The high half of a header word. -/
lemma headerWord_high {high : Nat} (h : high < 65536) (id : UInt16) :
    (headerWord high id).toNat / 65536 = high := by
  have hid : id.toNat < 65536 := id.toNat_lt
  rw [headerWord_toNat h]
  omega

/-- The low half of a header word. -/
lemma headerWord_id {high : Nat} (h : high < 65536) (id : UInt16) :
    UInt16.ofNat (headerWord high id).toNat = id := by
  have hid : id.toNat < 65536 := id.toNat_lt
  rw [headerWord_toNat h]
  apply UInt16.toNat_inj.mp
  rw [UInt16.toNat_ofNat']
  omega

/-- The id of a header word whose size follows is in its low half. -/
lemma escapedWord_id (id : UInt16) : UInt16.ofNat (escapedWord id).toNat = id :=
  headerWord_id (by decide) id

namespace Read

namespace Parses

/-- A word of a header takes four digits. -/
lemma headerPart (n : Nat) : Parses headerPart (LittleEndian.digits 4 n) (UInt32.ofNat n) := by
  intro r hr hfront
  simp only [Read.headerPart, u32 n r hr hfront]

/-- A header with the size in its high half. -/
lemma fixedHeader (id : UInt16) {size : Nat} (h : size < sizeEscape) :
    Parses headerWords (LittleEndian.digits 4 (headerWord size id).toNat)
      (headerWord size id, size, .fixed) := by
  have hhigh : size < 65536 := Nat.lt_trans h (by decide)
  have hword := headerPart (headerWord size id).toNat
  rw [UInt32.ofNat_toNat] at hword
  refine hword.after ?_
  rw [headerWord_high hhigh, if_neg (Nat.ne_of_lt h)]
  exact pure _

/-- A header with the size in a word of its own. -/
lemma delimitedHeader (id : UInt16) {size : Nat} (h : size < UInt32.size) :
    Parses headerWords
      (LittleEndian.digits 4 (escapedWord id).toNat ++ LittleEndian.digits 4 size)
      (escapedWord id, size, .delimited) := by
  have hhigh : (escapedWord id).toNat / 65536 = sizeEscape := headerWord_high (by decide) id
  have hword := headerPart (escapedWord id).toNat
  rw [UInt32.ofNat_toNat] at hword
  have hsize := (headerPart size).map fun word =>
    (escapedWord id, word.toNat, FieldFormat.delimited)
  rw [UInt32.toNat_ofNat_of_lt' h] at hsize
  refine hword.bind ?_
  rw [if_pos hhigh]
  exact hsize

end Parses

variable {r : Reader}

/-- A header that is read says where the payload starts. -/
lemma fieldHeader_of_parses (hr : r.Sound) {front : List UInt8} {word : UInt32} {size : Nat}
    {format : FieldFormat} (h : Parses headerWords front (word, size, format))
    (hfront : front <+: r.ahead) :
    ∃ header, fieldHeader r = .ok header (r.advance front.length) ∧
      header.id = UInt16.ofNat word.toNat ∧ header.size = size ∧
      header.payloadStart = r.pos + front.length := by
  refine ⟨⟨word, UInt16.ofNat word.toNat, size, format, r.pos + front.length⟩, ?_, rfl, rfl, rfl⟩
  rw [fieldHeader_eq, h r hr hfront]
  rfl

/-- The header of an object in front of as many bytes as it says. -/
lemma objectHeader_of_prefix (hr : r.Sound) {bs : List UInt8} (hbs : bs.length < UInt32.size)
    (hfront : LittleEndian.digits 4 objectWord.toNat ++
      (LittleEndian.digits 4 bs.length ++ bs) <+: r.ahead) :
    objectHeader r = .ok (r.pos + 8 + bs.length) (r.advance 8) := by
  have hlength := hfront.length_le
  rw [List.length_append, List.length_append, LittleEndian.length_digits,
    LittleEndian.length_digits] at hlength
  rw [← List.append_assoc] at hfront
  obtain ⟨header, hread, hid, hsize, hstart⟩ := fieldHeader_of_parses hr
    (Parses.delimitedHeader objectMagic hbs) ((List.prefix_append _ _).trans hfront)
  rw [List.length_append, LittleEndian.length_digits, LittleEndian.length_digits] at hread hstart
  rw [escapedWord_id] at hid
  have hstop : header.stop ≤ r.limit := (FieldHeader.stop_le_iff hr hstart).mpr (by omega)
  have hend := FieldHeader.stop_eq hr hstop
  unfold objectHeader
  rw [bind_apply, hread]
  dsimp only
  rw [if_neg (fun hother => hother hid), boundedStop_apply, Reader.advance_limit,
    if_neg (by omega), hend, hstart, hsize]

end Read

/-- A field that lies ahead ends behind its payload, and its window shows the payload. -/
lemma FieldHeader.window_of_prefix {r : Reader} (hr : r.Sound) {header : FieldHeader}
    {front payload : List UInt8} (hstart : header.payloadStart = r.pos + front.length)
    (hsize : header.size = payload.length) (hfront : front ++ payload <+: r.ahead) :
    header.stop ≤ r.limit ∧ header.stop - r.pos = (front ++ payload).length ∧
      (header.window r.bytes).Sound ∧ (header.window r.bytes).ahead = payload := by
  have hlength := hfront.length_le
  rw [List.length_append] at hlength
  have hstop : header.stop ≤ r.limit := (stop_le_iff hr hstart).mpr (by omega)
  have hend := stop_eq hr hstop
  obtain ⟨hwindow, hahead⟩ := window_ahead hr hstart hstop
  refine ⟨hstop, by rw [List.length_append]; omega, hwindow, ?_⟩
  obtain ⟨rest, hrest⟩ := hfront
  rw [hahead, ← hrest, hsize, List.append_assoc, List.drop_left, List.take_left]

end TaggedParcel
