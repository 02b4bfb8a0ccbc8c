import TaggedParcel.Proofs.Frame.Roundtrip
import TaggedParcel.Proofs.Frame.Scan

set_option relaxedAutoImplicit false
set_option autoImplicit false

/-!
# A layout tiles the bytes

A scan that succeeds leaves no byte of the object unexplained: the header of the object, the
headers of its fields and their payloads stand one behind the other, without gaps and without
overlaps. The same holds for the objects that the scan found in payloads, however deep they are.

## Main definitions

* `slice` — the bytes of a buffer between two offsets.
* `FieldLayout.Tile` — fields that fill a range of a buffer, one behind the other.
* `ObjectLayout.Tiles` — layouts of frames that nest so deep at most.
* `ObjectLayout.assemble` — the bytes of an object, from its layout and its payloads.

## Main results

* `Read.fieldHeader_slice`, `Read.objectHeader_slice` — a header that is read is there.
* `ObjectLayout.scanFields_tile`, `ObjectLayout.scanFrame_covers` — a scan finds tilings.
* `ObjectLayout.scan_tiles` — the layout of a scan tiles the bytes, and determines them together
  with the payloads.
-/

namespace TaggedParcel

/-- The bytes of a buffer from one offset to another. -/
def slice (bytes : Array UInt8) (start stop : Nat) : List UInt8 :=
  (bytes.extract start stop).toList

/-- Two slices one behind the other are one slice. -/
lemma slice_append (bytes : Array UInt8) {i j k : Nat} (hij : i ≤ j) (hjk : j ≤ k) :
    slice bytes i j ++ slice bytes j k = slice bytes i k := by
  simp only [slice, ← Array.toList_append, Array.extract_append_extract, Nat.min_eq_left hij,
    Nat.max_eq_right hjk]

/-- A slice from a place to the same place is empty. -/
lemma slice_self (bytes : Array UInt8) (i : Nat) : slice bytes i i = [] := by
  simp [slice]

/-- The next bytes of a reader, as a range of its buffer. -/
lemma Reader.take_ahead {r : Reader} (hr : r.Sound) {n : Nat} (hn : n ≤ r.ahead.length) :
    r.ahead.take n = slice r.bytes r.pos (r.pos + n) :=
  (Reader.ahead_narrow hr hn).symm

/-! ## Headers -/

namespace Read

variable {r : Reader}

/-- A header word that is read is there. -/
lemma headerPart_ok (hr : r.Sound) {word : UInt32} {r' : Reader}
    (h : headerPart r = .ok word r') :
    4 ≤ r.ahead.length ∧ r' = r.advance 4 ∧
      r.ahead.take 4 = LittleEndian.digits 4 word.toNat := by
  rcases headerPart_cases hr with ⟨word', h4, hread, hword⟩ | ⟨-, hread⟩
  · rw [hread] at h
    cases h
    refine ⟨h4, rfl, ?_⟩
    have hlength : (r.ahead.take 4).length = 4 := by
      rw [List.length_take]
      omega
    have hvalue := LittleEndian.value_lt (r.ahead.take 4)
    have hdigits := LittleEndian.digits_value (r.ahead.take 4)
    rw [hlength] at hvalue hdigits
    rw [hword, UInt32.toNat_ofNat_of_lt' hvalue, hdigits]
  · rw [hread] at h
    cases h

/-- What a header says stands in its bytes. -/
lemma headerWords_ok (hr : r.Sound) {word : UInt32} {size : Nat} {format : FieldFormat}
    {r' : Reader} (h : headerWords r = .ok (word, size, format) r') :
    format.width ≤ r.ahead.length ∧ r' = r.advance format.width ∧ format.Admits size ∧
      r.ahead.take format.width = format.header (UInt16.ofNat word.toNat) size := by
  have hid (w : UInt32) :
      w.toNat / 0x10000 * 0x10000 + (UInt16.ofNat w.toNat).toNat = w.toNat := by
    rw [UInt16.toNat_ofNat']
    omega
  obtain ⟨first, r₁, hfirst, hrest⟩ := bind_ok h
  obtain ⟨h4, rfl, htake⟩ := headerPart_ok hr hfirst
  split at hrest
  · -- the size stands in a word of its own
    rename_i hescape
    obtain ⟨second, r₂, hsecond, hanswer⟩ := bind_ok hrest
    obtain ⟨h8, rfl, htake'⟩ := headerPart_ok (hr.advance h4) hsecond
    cases hanswer
    rw [Reader.ahead_advance, List.length_drop] at h8
    refine ⟨by simp only [FieldFormat.width]; omega, by rw [Reader.advance_advance]; rfl,
      second.toNat_lt, ?_⟩
    have hsplit : r.ahead.take (4 + 4) = r.ahead.take 4 ++ (r.ahead.drop 4).take 4 := List.take_add
    have hword := hid word
    rw [hescape] at hword
    rw [Reader.ahead_advance] at htake'
    simp only [FieldFormat.width, FieldFormat.header]
    rw [hsplit, htake, htake']
    exact congrArg (LittleEndian.digits 4 · ++ _) hword.symm
  · -- the size stands in the high half of the word
    rename_i hfits
    cases hrest
    have hlt := word.toNat_lt
    refine ⟨h4, rfl, ?_, ?_⟩
    · simp only [FieldFormat.Admits, sizeEscape] at hfits ⊢
      omega
    · simp only [FieldFormat.width, FieldFormat.header]
      rw [htake, hid word]

/-- The header of a field that is read is there, and the payload starts behind it. -/
lemma fieldHeader_slice (hr : r.Sound) {header : FieldHeader} {r' : Reader}
    (h : fieldHeader r = .ok header r') :
    header.format.width ≤ r.ahead.length ∧ r' = r.advance header.format.width ∧
      header.payloadStart = r.pos + header.format.width ∧ header.format.Admits header.size ∧
      slice r.bytes r.pos header.payloadStart = header.format.header header.id header.size := by
  rw [fieldHeader_eq] at h
  cases hwords : headerWords r with
  | error e r₁ =>
    rw [hwords] at h
    cases h
  | ok words r₁ =>
    obtain ⟨word, size, format⟩ := words
    rw [hwords] at h
    cases h
    obtain ⟨hroom, rfl, hadmits, htake⟩ := headerWords_ok hr hwords
    refine ⟨hroom, rfl, rfl, hadmits, ?_⟩
    rw [Reader.take_ahead hr hroom] at htake
    exact htake

/-- The header of an object that is read is there, and so are the bytes that it promises. -/
lemma objectHeader_slice (hr : r.Sound) {stop : Nat} {r' : Reader}
    (h : objectHeader r = .ok stop r') :
    ∃ (format : FieldFormat) (size : Nat), format.width + size ≤ r.ahead.length ∧
      r' = r.advance format.width ∧ stop = r.pos + format.width + size ∧ format.Admits size ∧
      slice r.bytes r.pos (r.pos + format.width) = format.header objectMagic size := by
  have hlimit := Reader.limit_eq hr
  obtain ⟨header, r₁, hread, hrest⟩ := bind_ok h
  obtain ⟨hroom, rfl, hstart, hadmits, hslice⟩ := fieldHeader_slice hr hread
  split at hrest
  · cases hrest
  · rename_i hmagic
    rw [boundedStop_apply, Reader.advance_limit] at hrest
    split at hrest
    · cases hrest
    · cases hrest
      have hstop := @FieldHeader.stop_eq header r hr (by omega)
      rw [Decidable.not_not.mp hmagic, hstart] at hslice
      exact ⟨header.format, header.size, by omega, rfl, by omega, hadmits, hslice⟩

end Read

/-! ## Tilings -/

/-- Fields that fill the bytes up to `stop`, one behind the other: a header, and as many bytes
as it says. An object in a payload starts with it, and ends within it. -/
inductive FieldLayout.Tile (bytes : Array UInt8) (inside : ObjectLayout → Prop) (stop : Nat) :
    Nat → List FieldLayout → Prop where
  /-- Nothing is left to fill. -/
  | nil : Tile bytes inside stop stop []
  /-- A field starts at the offset, and the next one where its payload ends. -/
  | cons {start : Nat} {field : FieldLayout} {rest : List FieldLayout}
    (hoffset : field.offset = start)
    (hpayload : field.payloadOffset = start + field.format.width)
    (hadmits : field.format.Admits field.size)
    (hheader : slice bytes start field.payloadOffset = field.format.header field.id field.size)
    (hnested : ∀ object ∈ field.nested, field.format = .delimited ∧
      object.offset = field.payloadOffset ∧ object.stop ≤ field.payloadOffset + field.size ∧
      inside object)
    (hrest : Tile bytes inside stop (field.payloadOffset + field.size) rest) :
    Tile bytes inside stop start (field :: rest)

namespace ObjectLayout

/-- The layout of one frame: a header in front of the fields that fill it, and no more of these
than are allowed. -/
structure Frames (bytes : Array UInt8) (maxElements : Nat) (inside : ObjectLayout → Prop)
    (layout : ObjectLayout) : Prop where
  /-- The header says what size the fields have together. -/
  header : ∃ format : FieldFormat, format.Admits layout.size ∧
    layout.stop = layout.offset + format.width + layout.size ∧
    slice bytes layout.offset (layout.stop - layout.size) = format.header objectMagic layout.size
  /-- The fields fill the bytes behind the header. -/
  fields : FieldLayout.Tile bytes inside layout.stop (layout.stop - layout.size) layout.fields
  /-- The fields are counted. -/
  count : layout.fields.length ≤ maxElements

/-- The layout of a frame that fills its bytes, in which frames nest so deep at most, and so do
the frames in it. -/
def Tiles (bytes : Array UInt8) (maxElements : Nat) : (levels : Nat) → ObjectLayout → Prop
  | 0, _ => False
  | levels + 1, layout => layout.Frames bytes maxElements (Tiles bytes maxElements levels)

/-- The bytes of the header of an object. Where its fields start tells which form it has. -/
def header (layout : ObjectLayout) : List UInt8 :=
  (if layout.stop = layout.offset + 4 + layout.size then FieldFormat.fixed
    else FieldFormat.delimited).header objectMagic layout.size

/-- The bytes of an object, with the payload of each field. -/
def assemble (layout : ObjectLayout) (payload : FieldLayout → List UInt8) : List UInt8 :=
  layout.header ++
    layout.fields.flatMap fun field => field.format.header field.id field.size ++ payload field

end ObjectLayout

/-- The bytes of the payload of a field. -/
def FieldLayout.payload (bytes : Array UInt8) (field : FieldLayout) : List UInt8 :=
  slice bytes field.payloadOffset (field.payloadOffset + field.size)

namespace FieldLayout.Tile

variable {bytes : Array UInt8} {inside : ObjectLayout → Prop} {stop start : Nat}
  {fields : List FieldLayout}

/-- Fields do not start behind the end. -/
lemma start_le (h : Tile bytes inside stop start fields) : start ≤ stop := by
  induction h with
  | nil => exact Nat.le_refl _
  | cons _ hpayload _ _ _ _ ih => omega

/-- The bytes that fields fill are their headers and payloads. -/
lemma slice_eq (h : Tile bytes inside stop start fields) :
    slice bytes start stop = fields.flatMap fun field =>
      field.format.header field.id field.size ++ field.payload bytes := by
  induction h with
  | nil => exact slice_self bytes stop
  | @cons start field rest hoffset hpayload _ hheader _ hrest ih =>
    have hstop := hrest.start_le
    rw [List.flatMap_cons, ← ih, ← hheader, FieldLayout.payload,
      slice_append bytes (by omega) (Nat.le_add_right _ _), slice_append bytes (by omega) hstop]

end FieldLayout.Tile

namespace ObjectLayout

/-- A frame is its header, and the headers and payloads of its fields. -/
lemma Frames.slice_eq {bytes : Array UInt8} {maxElements : Nat} {inside : ObjectLayout → Prop}
    {layout : ObjectLayout} (h : layout.Frames bytes maxElements inside) :
    slice bytes layout.offset layout.stop = layout.assemble (FieldLayout.payload bytes) := by
  obtain ⟨⟨format, -, hstop, hheader⟩, hfields, -⟩ := h
  have hform : layout.header = format.header objectMagic layout.size := by
    unfold ObjectLayout.header
    cases format with
    | fixed => exact congrArg (FieldFormat.header · _ _) (if_pos hstop)
    | delimited =>
      simp only [FieldFormat.width] at hstop
      rw [if_neg (by omega)]
  rw [assemble, hform, ← hheader, ← hfields.slice_eq, slice_append bytes (by omega) (by omega)]

/-- An object that is tiled is put together from its fields. -/
lemma Tiles.slice_eq {bytes : Array UInt8} {maxElements levels : Nat} {layout : ObjectLayout}
    (h : layout.Tiles bytes maxElements levels) :
    slice bytes layout.offset layout.stop = layout.assemble (FieldLayout.payload bytes) := by
  cases levels with
  | zero => exact h.elim
  | succ levels => exact Frames.slice_eq h

/-! ## What a scan finds -/

variable {r : Reader} {maxElements : Nat} {inside : Array UInt8 → ObjectLayout → Prop}
  {walk : Read FrameError ObjectLayout}

/-- A walk that finds the layout of the frame at the position and stops behind it, or fails. In
either case it stays before the limit. -/
def Covers (inside : Array UInt8 → ObjectLayout → Prop) (walk : Read FrameError ObjectLayout) :
    Prop :=
  ∀ r : Reader, r.Sound →
    (∃ layout n, n ≤ r.ahead.length ∧ walk r = .ok layout (r.advance n) ∧
      layout.offset = r.pos ∧ layout.stop = r.pos + n ∧ inside r.bytes layout) ∨
    ∃ e n, n ≤ r.ahead.length ∧ walk r = .error e (r.advance n)

/-- A probe stays before the limit in force and before `stop`. An object that it finds starts at
the position and ends before `stop`. -/
lemma probe_cases (hwalk : Covers inside walk) (hr : r.Sound) {stop : Nat} (hstop : r.pos ≤ stop) :
    (∃ nested n, n ≤ r.ahead.length ∧ r.pos + n ≤ stop ∧
      probe walk stop r = .ok nested (r.advance n) ∧
      ∀ object ∈ nested, object.offset = r.pos ∧ object.stop ≤ stop ∧ inside r.bytes object) ∨
    ∃ e n, n ≤ r.ahead.length ∧ probe walk stop r = .error e (r.advance n) := by
  obtain ⟨size, rfl⟩ := Nat.exists_eq_add_of_le hstop
  have hnone : ∀ object ∈ (none : Option ObjectLayout), object.offset = r.pos ∧
      object.stop ≤ r.pos + size ∧ inside r.bytes object := fun object hobject => nomatch hobject
  unfold probe
  by_cases hsize : size ≤ r.ahead.length
  · have hlength : (r.narrow size).ahead.length = size := by
      rw [Reader.ahead_narrow hr hsize, List.length_take, Nat.min_eq_left hsize]
    rw [Read.within_narrow FrameError.buffer walk hr hsize]
    rcases hwalk (r.narrow size) (hr.narrow hsize) with
      ⟨layout, n, hn, hread, hoffset, hend, hinside⟩ | ⟨e, n, hn, hread⟩
    · rw [hread]
      rw [Reader.narrow_pos] at hoffset hend
      refine .inl ⟨some layout, n, by omega, by omega, rfl, fun object hobject => ?_⟩
      cases hobject
      exact ⟨hoffset, by omega, hinside⟩
    · rw [hread]
      cases e with
      | limit e => exact .inr ⟨.limit e, n, by omega, rfl⟩
      | buffer e => exact .inl ⟨none, n, by omega, by omega, rfl, hnone⟩
      | corruption c => exact .inl ⟨none, n, by omega, by omega, rfl, hnone⟩
  · rw [Read.within_refused FrameError.buffer walk hr (by omega)]
    exact .inl ⟨none, 0, Nat.zero_le _, by omega, rfl, hnone⟩

/-- A field that is scanned is there, and reading goes on behind it. -/
lemma scanField_cases (hwalk : Covers inside walk) (hr : r.Sound) :
    (∃ field n, 4 ≤ n ∧ n ≤ r.ahead.length ∧ scanField walk r.limit r = .ok field (r.advance n) ∧
      ∀ stop rest, FieldLayout.Tile r.bytes (inside r.bytes) stop (r.pos + n) rest →
        FieldLayout.Tile r.bytes (inside r.bytes) stop r.pos (field :: rest)) ∨
    ∃ e n, n ≤ r.ahead.length ∧ scanField walk r.limit r = .error e (r.advance n) := by
  have hlimit := Reader.limit_eq hr
  rcases Read.fieldHeader_cases hr with ⟨header, n, h4, hn, hstart, hread⟩ | ⟨c, n, hn, hread⟩
  · obtain ⟨hroom, hreader, hpayload, hadmits, hheader⟩ := Read.fieldHeader_slice hr hread
    have hle := FieldHeader.payloadStart_le_stop hr hn hstart
    -- the part between the header and the end of the field
    have hprobe : (∃ nested m, n + m ≤ r.ahead.length ∧ r.pos + n + m ≤ header.stop ∧
        (if header.format = .delimited ∧ startsObject r.bytes header.payloadStart then
            probe walk (min header.stop r.limit)
          else pure none) (r.advance n) = .ok nested (r.advance (n + m)) ∧
        ∀ object ∈ nested, header.format = .delimited ∧ object.offset = header.payloadStart ∧
          object.stop ≤ header.stop ∧ inside r.bytes object) ∨
        ∃ e m, n + m ≤ r.ahead.length ∧
          (if header.format = .delimited ∧ startsObject r.bytes header.payloadStart then
              probe walk (min header.stop r.limit)
            else pure none) (r.advance n) = .error e (r.advance (n + m)) := by
      have hlength : (r.advance n).ahead.length = r.ahead.length - n := by
        rw [Reader.ahead_advance, List.length_drop]
      split
      · rename_i hobject
        rcases probe_cases hwalk (hr.advance hn)
          (show (r.advance n).pos ≤ min header.stop r.limit by rw [Reader.advance_pos]; omega) with
          ⟨nested, m, hm, hstop, hrun, hnested⟩ | ⟨e, m, hm, hrun⟩
        · rw [Reader.advance_pos] at hstop
          rw [Reader.advance_advance] at hrun
          refine .inl ⟨nested, m, by omega, by omega, hrun, fun object hmem => ?_⟩
          obtain ⟨hoffset, hend, hinside⟩ := hnested object hmem
          exact ⟨hobject.1, hoffset.trans hstart.symm, by omega, hinside⟩
        · rw [Reader.advance_advance] at hrun
          exact .inr ⟨e, m, by omega, hrun⟩
      · exact .inl ⟨none, 0, hn, by omega, rfl, fun object hmem => nomatch hmem⟩
    rw [scanField_apply walk r.limit hread, bind_apply]
    rcases hprobe with ⟨nested, m, hm, hpos, hrun, hnested⟩ | ⟨e, m, hm, hrun⟩
    · rw [hrun]
      dsimp only
      rw [bind_apply, Read.skipField_apply (by rw [Reader.advance_pos]; omega),
        Reader.advance_limit]
      by_cases hover : header.stop > r.limit
      · rw [if_pos hover]
        exact .inr ⟨_, n + m, hm, rfl⟩
      · have hstop := @FieldHeader.stop_eq header r hr (by omega)
        rw [if_neg hover, Reader.advance_advance, Reader.advance_pos,
          show n + m + (header.stop - (r.pos + (n + m))) = header.stop - r.pos by omega]
        refine .inl ⟨_, header.stop - r.pos, by omega, by omega, rfl, fun stop rest hrest => ?_⟩
        refine .cons rfl hpayload hadmits hheader (fun object hmem => ?_) ?_
        · rw [← hstop]
          exact hnested object hmem
        · rw [← hstop, ← Nat.add_sub_cancel' (show r.pos ≤ header.stop by omega)]
          exact hrest
    · rw [hrun]
      exact .inr ⟨e, n + m, hm, rfl⟩
  · exact .inr ⟨.corruption c, n, hn, scanField_error walk r.limit hread⟩

/-- The fields that a scan finds fill the bytes up to the limit, and there are no more of them
than are allowed.

**Proof sketch.** Induction on the fuel. It counts bytes, and each field takes at least a word,
so that it does not run out before the limit is reached. -/
theorem scanFields_cases {limits : Limits} (hwalk : Covers inside walk) (fuel : Nat) {count : Nat}
    (done : List FieldLayout) (hr : r.Sound) (hfuel : r.ahead.length ≤ fuel)
    (hcount : count ≤ limits.maxElements) :
    (∃ fields, scanFields limits walk r.limit fuel count done r =
        .ok (done.reverse ++ fields) (r.advance r.ahead.length) ∧
      FieldLayout.Tile r.bytes (inside r.bytes) r.limit r.pos fields ∧
      count + fields.length ≤ limits.maxElements) ∨
    ∃ e n, n ≤ r.ahead.length ∧
      scanFields limits walk r.limit fuel count done r = .error e (r.advance n) := by
  induction fuel generalizing r count done with
  | zero =>
    have hlimit := Reader.limit_eq hr
    have hend : r.pos = r.limit := by omega
    refine .inl ⟨[], ?_, hend ▸ .nil, hcount⟩
    rw [show r.ahead.length = 0 by omega, List.append_nil]
    rfl
  | succ fuel ih =>
    have hlimit := Reader.limit_eq hr
    by_cases hpos : r.pos < r.limit
    · by_cases hroom : count < limits.maxElements
      · rw [scanFields_step limits walk fuel done hpos hroom]
        rcases scanField_cases hwalk hr with ⟨field, n, h4, hn, hfield, htile⟩ | ⟨e, n, hn, hfield⟩
        · have hlength : (r.advance n).ahead.length = r.ahead.length - n := by
            rw [Reader.ahead_advance, List.length_drop]
          have hnext := ih (field :: done) (hr.advance hn) (by omega)
            (show count + 1 ≤ limits.maxElements by omega)
          rw [Reader.advance_limit, Reader.advance_advance, hlength,
            Nat.add_sub_cancel' hn] at hnext
          rw [hfield]
          dsimp only
          rcases hnext with ⟨fields, hfields, hrest, hle⟩ | ⟨e, m, hm, hfields⟩
          · refine .inl ⟨field :: fields, ?_, htile _ _ hrest, ?_⟩
            · rw [hfields, List.reverse_cons, List.append_assoc, List.singleton_append]
            · rw [List.length_cons]
              omega
          · exact .inr ⟨e, n + m, by omega, by rw [hfields, Reader.advance_advance]⟩
        · rw [hfield]
          exact .inr ⟨e, n, hn, rfl⟩
      · exact .inr ⟨_, 0, Nat.zero_le _, scanFields_full limits walk fuel done hpos (by omega)⟩
    · have hend : r.pos = r.limit := by omega
      rw [scanFields_end limits walk _ count done hend, show r.ahead.length = 0 by omega]
      refine .inl ⟨[], ?_, hend ▸ .nil, hcount⟩
      rw [List.append_nil, Reader.advance_zero]

/-- The layout that a scan of a frame finds fills the bytes of the frame. -/
theorem scanFrame_covers (limits : Limits) (levels : Nat) :
    Covers (fun bytes => Tiles bytes limits.maxElements levels) (scanFrame limits levels) := by
  induction levels with
  | zero => exact fun r _ => .inr ⟨.limit (.depth limits), 0, Nat.zero_le _, rfl⟩
  | succ levels ih =>
    intro r hr
    have hlimit := Reader.limit_eq hr
    rcases Read.objectHeader_cases hr with ⟨n, size, h4, hsize, hread⟩ | ⟨c, n, hn, hread⟩
    · have hn : n ≤ r.ahead.length := by omega
      have hroom : size ≤ (r.advance n).ahead.length := by
        rw [Reader.ahead_advance, List.length_drop]
        omega
      have hlength : ((r.advance n).narrow size).ahead.length = size := by
        rw [Reader.ahead_narrow (hr.advance hn) hroom, List.length_take, Nat.min_eq_left hroom]
      obtain ⟨format, size', hfit, hreader, hstop, hadmits, hslice⟩ :=
        Read.objectHeader_slice hr hread
      -- the header is as wide as its form says
      have hwidth := congrArg Reader.pos hreader
      rw [Reader.advance_pos, Reader.advance_pos] at hwidth
      obtain rfl : n = format.width := by omega
      obtain rfl : size = size' := by omega
      have hwithin := Read.within_narrow FrameError.buffer
        (scanFields limits (scanFrame limits levels) (r.pos + format.width + size) size 0 [])
        (hr.advance hn) hroom
      have hfields := scanFields_cases ih size [] ((hr.advance hn).narrow hroom)
        (Nat.le_of_eq hlength) (Nat.zero_le limits.maxElements)
      rw [Reader.narrow_limit, Reader.advance_pos, hlength] at hfields
      rw [Reader.advance_pos] at hwithin
      rw [scanFrame_eq, hread]
      dsimp only
      rw [bind_apply]
      simp only [Read.position, Reader.advance_pos, Nat.add_sub_cancel_left]
      rw [bind_apply, hwithin]
      rcases hfields with ⟨fields, hfields, htile, hcount⟩ | ⟨e, m, hm, hfields⟩
      · rw [hfields]
        refine .inl ⟨⟨r.pos, size, r.pos + format.width + size, fields⟩, format.width + size,
          hfit, ?_, rfl, (Nat.add_assoc _ _ _).symm.symm, ?_, ?_, ?_⟩
        · simp only [Reader.advance, Reader.narrow, Nat.add_assoc]
          rfl
        · refine ⟨format, hadmits, rfl, ?_⟩
          rw [Nat.add_sub_cancel]
          exact hslice
        · rw [Nat.add_sub_cancel]
          exact htile
        · rwa [Nat.zero_add] at hcount
      · rw [hfields]
        refine .inr ⟨e, format.width + m, by omega, ?_⟩
        simp only [Reader.advance, Reader.narrow, Nat.add_assoc]
    · refine .inr ⟨.corruption c, n, hn, ?_⟩
      rw [scanFrame_eq, hread]

/-- The layout that a scan finds is that of a frame at the start of the buffer. It tiles the
frame: the header of the object, and the header and the payload of each field, stand one behind
the other and fill its bytes, and so it is in each object that the scan found in a payload. The
layout and the payloads together determine the bytes that were scanned.

**Proof sketch.** What a scan does to one field is told by `scanField_cases`: the bytes in front
of the payload are the header that the layout says, and reading goes on where the payload ends,
wherever a walk inside stopped. Induction over the fields gives the tiling of one frame, and
induction over the levels that of the frames in payloads. -/
theorem scan_tiles {bytes : Array UInt8} (hsize : bytes.size ≤ maxBuffer) {limits : Limits}
    {layout : ObjectLayout} (h : scan bytes limits = .ok layout) :
    layout.offset = 0 ∧ layout.stop ≤ bytes.size ∧
      layout.Tiles bytes limits.maxElements limits.maxDepth ∧
      slice bytes 0 layout.stop = layout.assemble (FieldLayout.payload bytes) := by
  unfold scan at h
  split at h
  · cases h
  · rcases scanFrame_covers limits limits.maxDepth _ (Reader.sound_ofBytes hsize) with
      ⟨layout', n, hn, hread, hoffset, hstop, htiles⟩ | ⟨e, n, -, hread⟩
    · rw [hread] at h
      cases h
      rw [Reader.ahead_ofBytes, Array.length_toList] at hn
      refine ⟨hoffset, ?_, htiles, ?_⟩
      · rw [hstop]
        exact (Nat.zero_add n).symm ▸ hn
      · have hslice := Tiles.slice_eq htiles
        rw [hoffset] at hslice
        exact hslice
    · rw [hread] at h
      cases h

end ObjectLayout

namespace Sample

/-- A frame with a field that holds a frame without fields, and two bytes behind it. -/
def nestedFrame : Array UInt8 :=
  #[0x45, 0x4F, 18, 0,  2, 0, 0xFF, 0xFF, 10, 0, 0, 0,  0x45, 0x4F, 0xFF, 0xFF, 0, 0, 0, 0,  7, 8]

/-- The layout of `nestedFrame`. -/
def nestedLayout : ObjectLayout :=
  ⟨0, 18, 22, [⟨2, 4, 12, 10, .delimited, some ⟨12, 0, 20, []⟩⟩]⟩

end Sample

namespace ObjectLayout

/-- A scan with room for two levels and one field finds the layout of the sample, and this tiles
the sample. -/
theorem scan_tiles_nested :
    Sample.nestedFrame.size ≤ maxBuffer ∧
      scan Sample.nestedFrame ⟨2, 1, 22⟩ = .ok Sample.nestedLayout ∧
      Sample.nestedLayout.offset = 0 ∧ Sample.nestedLayout.stop ≤ Sample.nestedFrame.size ∧
      Sample.nestedLayout.Tiles Sample.nestedFrame 1 2 ∧
      slice Sample.nestedFrame 0 Sample.nestedLayout.stop =
        Sample.nestedLayout.assemble (FieldLayout.payload Sample.nestedFrame) := by
  have hsize : Sample.nestedFrame.size ≤ maxBuffer := by decide
  have hscan : scan Sample.nestedFrame ⟨2, 1, 22⟩ = .ok Sample.nestedLayout := rfl
  exact ⟨hsize, hscan, scan_tiles hsize hscan⟩

end ObjectLayout

end TaggedParcel
