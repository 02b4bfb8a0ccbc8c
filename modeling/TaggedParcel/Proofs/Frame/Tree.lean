import TaggedParcel.Proofs.Buffer.Emission
import TaggedParcel.Proofs.Frame.Sequence
import TaggedParcel.Proofs.Frame.Tiling

set_option relaxedAutoImplicit false
set_option autoImplicit false

/-!
# Trees of objects

Objects in fields of objects are a tree, and writing the tree leaves a frame for every object in
it. A scan without limits finds the tree again: where the fields lie, how their headers keep their
sizes, and which payloads start with an object. For this the payloads that are no objects must not
look like one, but only where a scan looks: in payloads of four bytes or more whose size stands in
a word of its own.

## Main definitions

* `FieldTree` — a field, and how it is written.
* `FieldTree.write`, `FieldTree.bytes` — writing a field, and the bytes of fields.
* `FieldTree.layout`, `FieldTree.objectLayout` — where fields and objects lie.
* `FieldTree.Opaque` — fields in which nothing is taken for an object but objects.

## Main results

* `Write.Emits.extent` — a reserved word gets the number of bytes behind it.
* `FieldTree.write_emits` — a tree is written as its bytes.
* `ObjectLayout.probe_payload` — a payload that does not look like an object is found to be none.
* `FieldTree.scanField_layout`, `FieldTree.scanFields_layouts` — a scan finds the fields again.
* `FieldTree.scan_write` — a scan of what was written finds the tree.
-/

namespace TaggedParcel

/-- A field of an object, and how it is written. -/
inductive FieldTree where
  /-- A header is written for the size of the payload, and then the payload. -/
  | sized (id : UInt16) (payload : List UInt8)
  /-- The field is opened, its payload is written, and the field is closed. -/
  | opened (id : UInt16) (payload : List UInt8)
  /-- The field is opened, an object is written, perhaps some more bytes, and the field is
  closed. -/
  | object (id : UInt16) (fields : List FieldTree) (trailing : List UInt8)

namespace Write

/-- A field that is opened before its payload is written, and closed afterwards. -/
def opened (id : UInt16) (payload : Write FrameError Unit) : Write FrameError Unit := do
  let mark ← beginField id
  payload
  finishField mark

/-- An object that is opened before its fields are written, and closed afterwards. -/
def object (fields : Write FrameError Unit) : Write FrameError Unit := do
  let mark ← beginObject
  fields
  finishObject mark

end Write

/-- The first word of an object with an escaped size. -/
def objectStart : List UInt8 :=
  LittleEndian.digits 4 objectWord.toNat

namespace FieldTree

/-- The id of a field. -/
def id : FieldTree → UInt16
  | .sized id _ => id
  | .opened id _ => id
  | .object id _ _ => id

/-- Where the header of a field keeps the size. Only a header that is written for a known size
holds it itself, and only if the size is small. -/
def format : FieldTree → FieldFormat
  | .sized _ payload => if payload.length < sizeEscape then .fixed else .delimited
  | .opened _ _ => .delimited
  | .object _ _ _ => .delimited

mutual

/-- Writes a field. -/
def write : FieldTree → Write FrameError Unit
  | .sized id payload => do
    Write.fieldHeader id payload.length
    Write.raw payload
  | .opened id payload => Write.opened id (Write.raw payload)
  | .object id fields trailing => Write.opened id do
    Write.object (writeAll fields)
    Write.raw trailing

/-- Writes fields one after another. -/
def writeAll : List FieldTree → Write FrameError Unit
  | [] => pure ()
  | field :: rest => do
    field.write
    writeAll rest

end

mutual

/-- The bytes of the payload of a field. -/
def payload : FieldTree → List UInt8
  | .sized _ payload => payload
  | .opened _ payload => payload
  | .object _ fields trailing =>
    FieldFormat.delimited.header objectMagic (bytes fields).length ++ (bytes fields ++ trailing)

/-- The bytes of fields one behind the other: headers and payloads. -/
def bytes : List FieldTree → List UInt8
  | [] => []
  | field :: rest =>
    field.format.header field.id field.payload.length ++ (field.payload ++ bytes rest)

end

/-- The number of bytes of a field. -/
def size (field : FieldTree) : Nat :=
  field.format.width + field.payload.length

mutual

/-- Where a field lies that starts at an offset. -/
def layout (offset : Nat) : FieldTree → FieldLayout
  | .sized id payload =>
    let format := (FieldTree.sized id payload).format
    ⟨id, offset, offset + format.width, payload.length, format, none⟩
  | .opened id payload => ⟨id, offset, offset + 8, payload.length, .delimited, none⟩
  | .object id fields trailing =>
    let size := (bytes fields).length
    ⟨id, offset, offset + 8, 8 + (size + trailing.length), .delimited,
      some ⟨offset + 8, size, offset + 8 + 8 + size, layouts (offset + 8 + 8) fields⟩⟩

/-- Where fields lie of which the first starts at an offset. -/
def layouts (offset : Nat) : List FieldTree → List FieldLayout
  | [] => []
  | field :: rest => field.layout offset :: layouts (offset + field.size) rest

end

/-- Where the object with certain fields lies, if it starts at an offset. -/
def objectLayout (offset : Nat) (fields : List FieldTree) : ObjectLayout :=
  ⟨offset, (bytes fields).length, offset + 8 + (bytes fields).length, layouts (offset + 8) fields⟩

mutual

/-- Fields in which no payload is taken for an object: what stands behind an escaped size does not
start like an object, unless it is one. -/
def Opaque : FieldTree → Prop
  | .sized _ payload => payload.length < sizeEscape ∨ ¬ objectStart <+: payload
  | .opened _ payload => ¬ objectStart <+: payload
  | .object _ fields _ => AllOpaque fields

/-- Every one of some fields is opaque. -/
def AllOpaque : List FieldTree → Prop
  | [] => True
  | field :: rest => field.Opaque ∧ AllOpaque rest

end

end FieldTree

/-! ## Writing a tree -/

namespace Write

/-- Behind a reserved word stands what a body appends, and the word becomes its size. -/
lemma Emits.extent {write body : Write FrameError Unit} {front bs : List UInt8}
    (hwrite : ∀ w : Writer, write w =
      (body >>= fun _ => patchExtent ⟨(w.append front).position⟩)
        ((w.append front).append (LittleEndian.digits 4 0)))
    (h : Emits body (.ok bs)) (hfits : bs.length < UInt32.size) :
    Emits write (.ok (front ++ (LittleEndian.digits 4 bs.length ++ bs))) := by
  intro w
  have hsize : ((w.append front).append (LittleEndian.digits 4 0 ++ bs)).position -
      (Slot.mk (w.append front).position).stop = bs.length := by
    simp only [Writer.position_append, List.length_append, LittleEndian.length_digits, Slot.stop]
    omega
  rw [hwrite, bind_apply, h, Writer.append_append]
  dsimp only [patchExtent]
  rw [bind_apply]
  dsimp only [position]
  rw [hsize]
  show Write.mapError FrameError.buffer
    (patchSize ⟨(w.append front).position⟩ bs.length) _ = _
  rw [Write.mapError, patchSize_apply, if_pos hfits, Writer.append_append]

/-- A field around a payload emits a header with the size of the payload, and the payload. -/
lemma Emits.opened {id : UInt16} {body : Write FrameError Unit} {bs : List UInt8}
    (h : Emits body (.ok bs)) (hfits : bs.length < UInt32.size) :
    Emits (opened id body) (.ok (FieldFormat.delimited.header id bs.length ++ bs)) := by
  rw [FieldFormat.header, List.append_assoc, ← escapedWord_toNat]
  exact Emits.extent (fun _ => rfl) h hfits

/-- An object around fields emits a header with their size, and the fields. -/
lemma Emits.object {body : Write FrameError Unit} {bs : List UInt8} (h : Emits body (.ok bs))
    (hfits : bs.length < UInt32.size) :
    Emits (object body) (.ok (FieldFormat.delimited.header objectMagic bs.length ++ bs)) := by
  rw [FieldFormat.header, List.append_assoc, ← objectWord_toNat]
  exact Emits.extent (fun _ => rfl) h hfits

/-- The header of a payload of known size. -/
lemma Emits.fieldHeader (id : UInt16) {payload : List UInt8}
    (hfits : payload.length < UInt32.size) :
    Emits (fieldHeader id payload.length)
      (.ok ((FieldTree.sized id payload).format.header id payload.length)) := by
  unfold Write.fieldHeader
  rw [if_neg (Nat.not_le.mpr hfits)]
  by_cases hsmall : payload.length < sizeEscape
  · have hword : (headerWord payload.length id).toNat = payload.length * 0x10000 + id.toNat :=
      headerWord_toNat (Nat.lt_trans hsmall (by decide)) id
    simp only [if_pos hsmall, FieldTree.format, FieldFormat.header]
    rw [← hword]
    exact Emits.raw _
  · have hsize : (UInt32.ofNat payload.length).toNat = payload.length :=
      UInt32.toNat_ofNat_of_lt' hfits
    simp only [if_neg hsmall, FieldTree.format, FieldFormat.header]
    unfold u32
    rw [escapedWord_toNat, hsize]
    exact (Emits.raw _).bind (Emits.raw _)

end Write

namespace FieldTree

mutual

/-- A field is written as its header and its payload. -/
theorem write_emits (field : FieldTree) (h : field.size < UInt32.size) :
    Write.Emits field.write
      (.ok (field.format.header field.id field.payload.length ++ field.payload)) := by
  cases field with
  | sized id payload =>
    simp only [size, FieldTree.payload] at h
    rw [write, FieldTree.payload]
    exact (Write.Emits.fieldHeader id (by omega)).bind (Write.Emits.raw payload)
  | opened id payload =>
    simp only [size, FieldTree.payload] at h
    rw [write, FieldTree.payload]
    exact Write.Emits.opened (Write.Emits.raw payload) (by omega)
  | object id fields trailing =>
    simp only [size, payload, List.length_append, FieldFormat.length_header,
      FieldFormat.width] at h
    have hobject := Write.Emits.object (writeAll_emits fields (by omega)) (by omega)
    have hbody := hobject.bind (Write.Emits.raw trailing)
    simp only [Except.map, List.append_assoc] at hbody
    rw [write, payload]
    refine Write.Emits.opened hbody ?_
    simp only [List.length_append, FieldFormat.length_header, FieldFormat.width]
    omega

/-- Fields are written one behind the other. -/
theorem writeAll_emits (fields : List FieldTree) (h : (bytes fields).length < UInt32.size) :
    Write.Emits (writeAll fields) (.ok (bytes fields)) := by
  cases fields with
  | nil =>
    rw [writeAll, bytes]
    exact Write.Emits.pure
  | cons field rest =>
    simp only [bytes, List.length_append, FieldFormat.length_header] at h
    rw [writeAll, bytes, ← List.append_assoc]
    exact (write_emits field (by simp only [size]; omega)).bind (writeAll_emits rest (by omega))

end

end FieldTree

/-! ## Scanning a tree -/

namespace ObjectLayout

variable {r : Reader} {walk : Read FrameError ObjectLayout} {limits : Limits} {levels : Nat}

/-- A field that lies ahead is scanned as its header says, and in its payload is the object that a
probe finds there. -/
lemma scanField_of_prefix (hr : r.Sound) {format : FieldFormat} {id : UInt16}
    {payload : List UInt8} (hadmits : format.Admits payload.length)
    (hfront : format.header id payload.length ++ payload <+: r.ahead)
    {nested : Option ObjectLayout} {m : Nat} (hm : m ≤ payload.length)
    (hprobe : (if format = .delimited ∧ startsObject r.bytes (r.pos + format.width) then
        probe walk (r.pos + format.width + payload.length)
      else pure none) (r.advance format.width) = .ok nested (r.advance (format.width + m))) :
    scanField walk r.limit r =
      .ok ⟨id, r.pos, r.pos + format.width, payload.length, format, nested⟩
        (r.advance (format.width + payload.length)) := by
  have hlength := hfront.length_le
  rw [List.length_append, format.length_header] at hlength
  have hlimit := Reader.limit_eq hr
  obtain ⟨header, hread, hid, hsize, hstart⟩ :=
    Read.fieldHeader_of_format hr hadmits ((List.prefix_append _ _).trans hfront)
  -- the header is as wide as it was written, so it has the same form
  have hformat : header.format = format := by
    obtain ⟨-, hadvance, -, -, -⟩ := Read.fieldHeader_slice hr hread
    have hwidth := congrArg Reader.pos hadvance
    simp only [Reader.advance_pos, Nat.add_right_inj] at hwidth
    revert hwidth
    cases header.format <;> cases format <;> decide
  have hstop : header.stop ≤ r.limit := (FieldHeader.stop_le_iff hr hstart).mpr (by omega)
  have hend : header.stop = r.pos + format.width + payload.length := by
    rw [FieldHeader.stop_eq hr hstop, hstart, hsize]
  rw [scanField_apply walk r.limit hread, hformat, hstart, hend, Nat.min_eq_left (by omega),
    bind_apply, hprobe]
  dsimp only
  rw [bind_apply, Read.skipField_apply (by rw [Reader.advance_pos]; omega), Reader.advance_limit,
    if_neg (by omega), Reader.advance_advance, Reader.advance_pos, hid, hsize,
    show format.width + m + (header.stop - (r.pos + (format.width + m))) =
      format.width + payload.length by omega]
  rfl

/-- What starts an object stands in the buffer if it is ahead. -/
lemma startsObject_eq {bs : List UInt8} (hr : r.Sound) (hfront : bs <+: r.ahead)
    (hlength : 4 ≤ bs.length) : startsObject r.bytes r.pos = decide (objectStart <+: bs) := by
  have hroom : 4 ≤ r.ahead.length := Nat.le_trans hlength hfront.length_le
  have htake : r.ahead.take 4 = bs.take 4 := by
    obtain ⟨rest, hrest⟩ := hfront
    rw [← hrest, List.take_append_of_le_length hlength]
  have hword : (r.bytes.extract r.pos (r.pos + 4)).toList = bs.take 4 :=
    (Reader.take_ahead hr hroom).symm.trans htake
  have hfour : objectStart.length = 4 := LittleEndian.length_digits _ _
  unfold startsObject
  rw [hword, Bool.eq_iff_iff, beq_iff_eq, decide_eq_true_iff, List.prefix_iff_eq_take, hfour]
  exact eq_comm

/-- A payload that does not start like an object is found to be none. If it is too short to tell,
a probe fails inside of it. -/
lemma probe_payload (hr : r.Sound) {payload : List UInt8} (hfront : payload <+: r.ahead)
    (hblank : ¬ objectStart <+: payload) (hlevels : 0 < levels) :
    ∃ m, m ≤ payload.length ∧
      (if startsObject r.bytes r.pos then
        probe (scanFrame limits levels) (r.pos + payload.length)
      else pure none) r = .ok none (r.advance m) := by
  have hlength := hfront.length_le
  obtain ⟨levels, rfl⟩ : ∃ n, levels = n + 1 := ⟨levels - 1, by omega⟩
  by_cases hshort : payload.length < 4
  · split
    case isFalse => exact ⟨0, Nat.zero_le _, rfl⟩
    case isTrue =>
      have hsound := hr.narrow hlength
      have hahead : (r.narrow payload.length).ahead.length = payload.length := by
        rw [Reader.ahead_narrow hr hlength, List.length_take, Nat.min_eq_left hlength]
      unfold probe
      rw [Read.within_narrow FrameError.buffer _ hr hlength, scanFrame_eq]
      rcases Read.objectHeader_cases hsound with ⟨n, size, h4, hroom, -⟩ | ⟨c, n, hn, hread⟩
      · omega
      · rw [hread]
        exact ⟨n, by omega, rfl⟩
  · rw [startsObject_eq hr hfront (by omega), decide_eq_false hblank]
    exact ⟨0, Nat.zero_le _, rfl⟩

/-- A frame that lies ahead is scanned as its fields are. -/
lemma scanFrame_of_ahead (hr : r.Sound) {bs : List UInt8} (hbs : bs.length < UInt32.size)
    (hfront : FieldFormat.delimited.header objectMagic bs.length ++ bs <+: r.ahead)
    {fields : List FieldLayout}
    (hfields : ∀ inner : Reader, inner.Sound → inner.ahead = bs → inner.pos = r.pos + 8 →
      scanFields limits (scanFrame limits levels) inner.limit bs.length 0 [] inner =
        .ok fields (inner.advance bs.length)) :
    scanFrame limits (levels + 1) r =
      .ok ⟨r.pos, bs.length, r.pos + 8 + bs.length, fields⟩ (r.advance (8 + bs.length)) := by
  have hlength := hfront.length_le
  rw [List.length_append, FieldFormat.length_header, FieldFormat.width] at hlength
  obtain ⟨-, hbehind⟩ := Reader.prefix_advance hfront
  rw [FieldFormat.length_header, FieldFormat.width] at hbehind
  rw [FieldFormat.header, List.append_assoc, ← objectWord_toNat] at hfront
  have hadvance := hr.advance (show 8 ≤ r.ahead.length by omega)
  have hroom := hbehind.length_le
  have hahead := Reader.ahead_narrow_length hadvance hbehind
  have hinner := hfields _ (hadvance.narrow hroom) hahead rfl
  have hwithin := Read.within_narrow FrameError.buffer
    (scanFields limits (scanFrame limits levels) (r.pos + 8 + bs.length) bs.length 0 [])
    hadvance hroom
  rw [Reader.narrow_limit, Reader.advance_pos] at hinner
  rw [Reader.advance_pos, hinner] at hwithin
  rw [scanFrame_eq, Read.objectHeader_of_prefix hr hbs hfront]
  dsimp only
  rw [bind_apply]
  simp only [Read.position, Reader.advance_pos, Nat.add_sub_cancel_left]
  rw [bind_apply, hwithin]
  simp only [Reader.advance, Reader.narrow, Nat.add_assoc]
  rfl

end ObjectLayout

namespace FieldTree

open ObjectLayout

variable {limits : Limits} {r : Reader}

/-- A field with a small or an opaque payload holds no object that a scan could find. -/
lemma scanField_raw {format : FieldFormat} {id : UInt16} {payload : List UInt8} {levels : Nat}
    (hr : r.Sound) (hadmits : format.Admits payload.length)
    (hfront : format.header id payload.length ++ payload <+: r.ahead)
    (hblank : format = .delimited → ¬ objectStart <+: payload) (hlevels : 0 < levels) :
    scanField (scanFrame limits levels) r.limit r =
      .ok ⟨id, r.pos, r.pos + format.width, payload.length, format, none⟩
        (r.advance (format.width + payload.length)) := by
  have hlength := hfront.length_le
  rw [List.length_append, format.length_header] at hlength
  obtain ⟨-, hbehind⟩ := Reader.prefix_advance hfront
  rw [format.length_header] at hbehind
  by_cases hformat : format = .delimited
  · obtain ⟨m, hm, hprobe⟩ := @probe_payload _ limits levels (hr.advance (by omega)) payload hbehind
      (hblank hformat) hlevels
    rw [Reader.advance_pos, Reader.advance_bytes, Reader.advance_advance] at hprobe
    refine scanField_of_prefix hr hadmits hfront hm ?_
    simp only [hformat, true_and] at hprobe ⊢
    exact hprobe
  · refine scanField_of_prefix hr hadmits hfront (Nat.zero_le _) ?_
    rw [if_neg fun hboth => hformat hboth.1]
    rfl

/-- A field whose payload starts with a frame holds an object. -/
lemma scanField_object {id : UInt16} {bs trailing : List UInt8} {levels : Nat} (hr : r.Sound)
    (hfits : 8 + (bs.length + trailing.length) < UInt32.size)
    (hfront : FieldFormat.delimited.header id (FieldFormat.delimited.header objectMagic bs.length ++
      (bs ++ trailing)).length ++ (FieldFormat.delimited.header objectMagic bs.length ++
        (bs ++ trailing)) <+: r.ahead) {fields : List FieldLayout}
    (hfields : ∀ inner : Reader, inner.Sound → inner.ahead = bs → inner.pos = r.pos + 8 + 8 →
      scanFields limits (scanFrame limits levels) inner.limit bs.length 0 [] inner =
        .ok fields (inner.advance bs.length)) :
    scanField (scanFrame limits (levels + 1)) r.limit r =
      .ok ⟨id, r.pos, r.pos + 8, 8 + (bs.length + trailing.length), .delimited,
          some ⟨r.pos + 8, bs.length, r.pos + 8 + 8 + bs.length, fields⟩⟩
        (r.advance (8 + (8 + (bs.length + trailing.length)))) := by
  generalize hpayload : FieldFormat.delimited.header objectMagic bs.length ++ (bs ++ trailing) =
    payload at hfront
  have hlength : payload.length = 8 + (bs.length + trailing.length) := by
    rw [← hpayload, List.length_append, List.length_append, FieldFormat.length_header,
      FieldFormat.width]
  have hroom := hfront.length_le
  rw [List.length_append, FieldFormat.length_header, FieldFormat.width] at hroom
  obtain ⟨-, hbehind⟩ := Reader.prefix_advance hfront
  rw [FieldFormat.length_header, FieldFormat.width] at hbehind
  have hadvance := hr.advance (show 8 ≤ r.ahead.length by omega)
  have hnarrow := hadvance.narrow hbehind.length_le
  have hahead := Reader.ahead_narrow_length hadvance hbehind
  -- the payload starts with a header of an object, and a probe finds the object
  have hobject : objectStart <+: payload := by
    rw [← hpayload, objectStart, objectWord_toNat, FieldFormat.header, List.append_assoc]
    exact List.prefix_append _ _
  have hstarts := startsObject_eq hadvance hbehind (by omega)
  rw [decide_eq_true hobject, Reader.advance_bytes, Reader.advance_pos] at hstarts
  have hframe := scanFrame_of_ahead hnarrow (by omega)
    (by rw [hahead, ← hpayload, ← List.append_assoc]; exact List.prefix_append _ _) hfields
  have hprobe : probe (scanFrame limits (levels + 1)) (r.pos + 8 + payload.length) (r.advance 8) =
      .ok (some ⟨r.pos + 8, bs.length, r.pos + 8 + 8 + bs.length, fields⟩)
        (r.advance (8 + (8 + bs.length))) := by
    have hwithin := Read.within_narrow FrameError.buffer (scanFrame limits (levels + 1)) hadvance
      hbehind.length_le
    rw [hframe, Reader.advance_pos] at hwithin
    unfold probe
    rw [hwithin]
    simp only [Reader.advance, Reader.narrow, Nat.add_assoc]
  have hfits' : FieldFormat.delimited.Admits payload.length := by
    rw [hlength]
    exact hfits
  have hscan := scanField_of_prefix hr hfits' hfront (show 8 + bs.length ≤ payload.length by omega)
    (by rw [FieldFormat.width, if_pos ⟨rfl, hstarts⟩]; exact hprobe)
  rw [hlength] at hscan
  exact hscan

mutual

/-- A field is scanned as the layout of its tree says.

**Proof sketch.** A payload that is no object is passed over, whether a probe looks into it or not.
An object is probed, and its fields are scanned by induction. It has a level less, and it takes
at least a header fewer bytes than its field. -/
theorem scanField_layout (field : FieldTree) (hblank : field.Opaque) {r : Reader} {levels : Nat}
    (hr : r.Sound)
    (hfront : field.format.header field.id field.payload.length ++ field.payload <+: r.ahead)
    (hfits : field.payload.length < UInt32.size) (hlevels : field.payload.length < levels)
    (helements : field.payload.length < limits.maxElements) :
    scanField (scanFrame limits levels) r.limit r =
      .ok (field.layout r.pos) (r.advance field.size) := by
  cases field with
  | sized id payload =>
    rw [Opaque] at hblank
    simp only [FieldTree.payload] at hfits hlevels
    have hadmits : (sized id payload).format.Admits payload.length := by
      simp only [format]
      split
      · assumption
      · exact hfits
    refine scanField_raw hr hadmits hfront (fun hformat => ?_) (by omega)
    rcases hblank with hsmall | hblank
    · rw [format, if_pos hsmall] at hformat
      cases hformat
    · exact hblank
  | opened id payload =>
    simp only [FieldTree.payload] at hfits hlevels
    have hadmits : FieldFormat.delimited.Admits payload.length := hfits
    exact scanField_raw hr hadmits hfront (fun _ => hblank) (by omega)
  | object id fields trailing =>
    rw [Opaque] at hblank
    simp only [payload, List.length_append, FieldFormat.length_header, FieldFormat.width]
      at hfits hlevels helements
    obtain ⟨levels, rfl⟩ : ∃ n, levels = n + 1 := ⟨levels - 1, by omega⟩
    have hsize : (object id fields trailing).size = 8 + (8 + ((bytes fields).length +
        trailing.length)) := by
      simp only [size, format, payload, List.length_append, FieldFormat.length_header,
        FieldFormat.width]
    rw [payload] at hfront
    rw [layout, hsize]
    refine scanField_object hr (by omega) hfront fun inner hinner hahead hpos => ?_
    have hscan := scanFields_layouts fields hblank hinner hahead (by omega)
      (show (bytes fields).length ≤ levels by omega) (Nat.le_refl _)
      (show 0 + (bytes fields).length < limits.maxElements by omega) []
    rw [hpos] at hscan
    exact hscan

/-- Fields that fill the bytes ahead are scanned as their layouts say, behind those found so
far. -/
theorem scanFields_layouts (fields : List FieldTree) (hblank : AllOpaque fields) {r : Reader}
    {levels fuel count : Nat} (hr : r.Sound) (hahead : r.ahead = bytes fields)
    (hfits : (bytes fields).length < UInt32.size) (hlevels : (bytes fields).length ≤ levels)
    (hfuel : (bytes fields).length ≤ fuel)
    (helements : count + (bytes fields).length < limits.maxElements) (done : List FieldLayout) :
    scanFields limits (scanFrame limits levels) r.limit fuel count done r =
      .ok (done.reverse ++ layouts r.pos fields) (r.advance (bytes fields).length) := by
  have hlimit := Reader.limit_eq hr
  rw [hahead] at hlimit
  cases fields with
  | nil =>
    rw [bytes, List.length_nil] at hlimit
    rw [scanFields_end limits _ fuel count done hlimit.symm, layouts, bytes, List.append_nil]
    rfl
  | cons field rest =>
    have hlength : (bytes (field :: rest)).length = field.size + (bytes rest).length := by
      simp only [bytes, size, List.length_append, FieldFormat.length_header, Nat.add_assoc]
    have hwidth : 4 ≤ field.format.width := by cases field.format <;> decide
    rw [AllOpaque] at hblank
    rw [hlength] at hlimit hfits hlevels hfuel helements
    have hfront : field.format.header field.id field.payload.length ++ field.payload <+:
        r.ahead := by
      rw [hahead, bytes, ← List.append_assoc]
      exact List.prefix_append _ _
    have hsize : field.size = field.format.width + field.payload.length := rfl
    obtain ⟨fuel, rfl⟩ : ∃ n, fuel = n + 1 := ⟨fuel - 1, by omega⟩
    have hfield := scanField_layout field hblank.1 hr hfront (by omega)
      (show field.payload.length < levels by omega) (by omega)
    have hroom : field.size ≤ r.ahead.length := by
      rw [hahead, hlength]
      exact Nat.le_add_right _ _
    have hrest : (r.advance field.size).ahead = bytes rest := by
      rw [Reader.ahead_advance, hahead, bytes, ← List.append_assoc]
      exact List.drop_left' (by rw [List.length_append, FieldFormat.length_header, hsize])
    have hnext := scanFields_layouts rest hblank.2 (hr.advance hroom) hrest (by omega)
      (show (bytes rest).length ≤ levels by omega) (show (bytes rest).length ≤ fuel by omega)
      (show count + 1 + (bytes rest).length < limits.maxElements by omega)
      (field.layout r.pos :: done)
    rw [Reader.advance_limit, Reader.advance_pos, Reader.advance_advance] at hnext
    rw [scanFields_step limits _ fuel done (by omega) (by omega), hfield]
    dsimp only
    rw [hnext, layouts, hlength, List.reverse_cons, List.append_assoc, List.singleton_append]

end

/-- What is written for a tree is found again by a scan without limits: every field with its id, its
offsets, its size and the form of its header, and in it the object that was written there, but no
other.

**Proof sketch.** The tree is written as its bytes, of which the frame at the start of the buffer
consists. Its fields are scanned by induction over the tree. The limits are not reached, because
every level and every field takes some of the bytes, of which there are fewer. -/
theorem scan_write {fields : List FieldTree} (hblank : AllOpaque fields)
    (hsize : 8 + (bytes fields).length < UInt32.size) :
    ∃ w, Write.object (writeAll fields) .empty = .ok () w ∧
      scan w.bytes .unlimited = .ok (objectLayout 0 fields) := by
  have hemits := Write.Emits.object (writeAll_emits fields (by omega)) (by omega)
  refine ⟨_, hemits .empty, ?_⟩
  generalize hbs : FieldFormat.delimited.header objectMagic (bytes fields).length ++ bytes fields =
    bs
  have hlength : bs.length = 8 + (bytes fields).length := by
    rw [← hbs, List.length_append, FieldFormat.length_header, FieldFormat.width]
  have hbytes : (Writer.empty.append bs).bytes = bs.toArray := by
    simp [Writer.append, Writer.empty]
  have hbuffer : bs.toArray.size ≤ maxBuffer := by
    rw [List.size_toArray, hlength]
    simp only [UInt32.size, maxBuffer] at *
    omega
  have hobject : ¬ bs.toArray.size > Limits.unlimited.maxObjectBytes := by
    rw [List.size_toArray, hlength]
    simp only [Limits.unlimited, UInt32.size, UInt64.size] at *
    omega
  have hahead : FieldFormat.delimited.header objectMagic (bytes fields).length ++ bytes fields <+:
      (Reader.ofBytes bs.toArray).ahead := by
    simp only [Reader.ahead_ofBytes, hbs, List.prefix_rfl]
  have hframe := @scanFrame_of_ahead _ .unlimited (UInt64.size - 2) (Reader.sound_ofBytes hbuffer)
    (bytes fields) (by omega) hahead (layouts 8 fields)
    fun inner hinner hahead hpos => by
      have hscan := @scanFields_layouts .unlimited fields hblank inner (UInt64.size - 2)
        (bytes fields).length 0 hinner hahead (by omega)
        (by simp only [UInt32.size, UInt64.size] at *; omega) (Nat.le_refl _)
        (by simp only [Limits.unlimited, UInt32.size, UInt64.size] at *; omega) []
      rw [hpos] at hscan
      exact hscan
  have hlevels : Limits.unlimited.maxDepth = UInt64.size - 2 + 1 := by
    simp only [Limits.unlimited, UInt64.size]
  rw [hbytes, scan, if_neg hobject, hlevels, hframe]
  rfl

end FieldTree

/-- A tree in which the marks of objects are ids, short payloads stand next to them, and an object
with bytes behind it holds another one. -/
def Sample.marked : List FieldTree :=
  [.opened objectMagic [], .sized 0xFFFF [0xFF, 0xFF, 0x45],
    .object objectMagic [.sized objectMagic [1, 2, 3, 4], .object 0xFFFF [] []] [0x45, 0x4F],
    .opened 0xFFFF [0x45, 0x4F, 0xFF]]

namespace FieldTree

/-- A tree in which marks of objects are ids, and short payloads stand next to them, is found again
as it was written. -/
theorem scan_write_marked :
    AllOpaque Sample.marked ∧ 8 + (bytes Sample.marked).length < UInt32.size ∧
      ∃ w, Write.object (writeAll Sample.marked) .empty = .ok () w ∧
        ObjectLayout.scan w.bytes .unlimited = .ok (objectLayout 0 Sample.marked) := by
  have hblank : AllOpaque Sample.marked := by
    simp [Sample.marked, AllOpaque, Opaque, objectStart, sizeEscape]
    decide
  have hsize : 8 + (bytes Sample.marked).length < UInt32.size := by decide
  exact ⟨hblank, hsize, scan_write hblank hsize⟩

end FieldTree

end TaggedParcel
