import TaggedParcel.Frame.Header
import TaggedParcel.Proofs.Buffer.Locality

set_option relaxedAutoImplicit false
set_option autoImplicit false

/-!
# The outline of a frame

A frame is read from field to field, by the headers alone: what a field holds does not matter to
where the next one starts. The outline of a frame is the list of these headers.

## Main definitions

* `Read.outline` — the headers of a frame, in the order of the bytes.
* `FieldHeader.Tile` — headers whose fields fill a range of a buffer, one behind the other.

## Main results

* `Read.fieldHeader_cases`, `Read.objectHeader_cases` — what reading a header can do.
* `Read.fieldHeader_matched` — headers do not depend on where their bytes lie.
* `Read.fieldHeaders_cases` — the headers that are read fill the frame, or the frame is corrupt.
-/

namespace TaggedParcel

/-- Headers of fields that fill the bytes from a position up to `stop`, one behind the other. -/
inductive FieldHeader.Tile (bytes : Array UInt8) (stop : Nat) : Nat → List FieldHeader → Prop where
  /-- Nothing is left to fill. -/
  | nil : Tile bytes stop stop []
  /-- A field starts at the position, and the next one where its header says that it ends. -/
  | cons {pos : Nat} {header : FieldHeader} {rest : List FieldHeader}
    (hread : Read.fieldHeader ⟨bytes, pos, stop⟩ =
      .ok header ⟨bytes, header.payloadStart, stop⟩)
    (hpos : pos + 4 ≤ header.payloadStart)
    (hstart : header.payloadStart ≤ header.stop)
    (hstop : header.stop ≤ stop)
    (hrest : Tile bytes stop header.stop rest) : Tile bytes stop pos (header :: rest)

/-- The reader on the payload of a field in a buffer. -/
def FieldHeader.window (header : FieldHeader) (bytes : Array UInt8) : Reader :=
  ⟨bytes, header.payloadStart, header.stop⟩

/-- Where the fields of a frame end, and their headers. -/
structure FrameOutline where
  /-- The offset behind the fields. -/
  stop : Nat
  /-- The headers, in the order of the bytes. -/
  headers : List FieldHeader

namespace Read

/-- The headers of the fields up to `stop`, each left at its declared end. Each takes at least a
word, so `fuel` for the bytes that are left is enough. -/
def fieldHeaders (stop : Nat) : (fuel : Nat) → Read FrameError (List FieldHeader)
  | 0 => pure []
  | fuel + 1 => do
    if (← position) < stop then
      let header ← fieldHeader
      skipField header
      let rest ← fieldHeaders stop fuel
      return header :: rest
    else
      return []

/-- The outline of the frame at the present position. -/
def outline : Read FrameError FrameOutline := do
  let stop ← objectHeader
  let start ← position
  let headers ← within .buffer stop (fieldHeaders stop (stop - start))
  return ⟨stop, headers⟩

/-! ## Headers -/

/-- What a header says, without the offset of the payload. -/
def headerWords : Read FrameError (UInt32 × Nat × FieldFormat) := do
  let word ← headerPart
  if word.toNat / 65536 = sizeEscape then
    let size ← headerPart
    return (word, size.toNat, .delimited)
  else
    return (word, word.toNat / 65536, .fixed)

variable {r : Reader}

/-- Four bytes are a word, fewer are a corrupt header. -/
lemma headerPart_cases (hr : r.Sound) :
    (∃ word, 4 ≤ r.ahead.length ∧ headerPart r = .ok word (r.advance 4) ∧
      word = UInt32.ofNat (LittleEndian.value (r.ahead.take 4))) ∨
    (r.ahead.length < 4 ∧
      headerPart r = .error (.corruption (.overread (r.pos + 4) r.limit)) r) := by
  by_cases h : 4 ≤ r.ahead.length
  · refine .inl ⟨_, h, ?_, rfl⟩
    have hraw : raw 4 r = .ok (r.ahead.take 4).toArray (r.advance 4) :=
      takePadded_of_le hr (Nat.le_refl 4) h
    have hword : u32 r = .ok (UInt32.ofNat (LittleEndian.value (r.ahead.take 4)))
        (r.advance 4) := by
      unfold u32 word
      rw [bind_apply, bind_apply, hraw]
      rfl
    unfold headerPart
    rw [hword]
  · refine .inr ⟨by omega, ?_⟩
    have hraw : raw 4 r = .error (.unexpectedEof 4 r.ahead.length) r :=
      takePadded_of_lt hr (by omega)
    have hword : u32 r = .error (.unexpectedEof 4 r.ahead.length) r := by
      unfold u32 word
      rw [bind_apply, bind_apply, hraw]
    unfold headerPart
    rw [hword]

/-- A word of a header is local. -/
lemma Local.headerPart : Local headerPart := by
  intro r₁ r₂ hr₁ hr₂ hahead
  rcases headerPart_cases hr₁ with ⟨word, h, hread, hword⟩ | ⟨h, hread⟩
  · rcases headerPart_cases hr₂ with ⟨word₂, -, hread₂, hword₂⟩ | ⟨h₂, -⟩
    · rw [hread, hread₂, hword₂, ← hahead, ← hword]
      exact .ok word 4 h
    · rw [← hahead] at h₂
      omega
  · rcases headerPart_cases hr₂ with ⟨word₂, h₂, -, -⟩ | ⟨-, hread₂⟩
    · rw [← hahead] at h₂
      omega
    · rw [hread, hread₂]
      exact .error _ _ 0 (Nat.zero_le _)

/-- What a header says depends on its bytes alone. -/
lemma Local.headerWords : Local headerWords := by
  refine Local.bind Local.headerPart fun word => ?_
  split
  · exact Local.bind Local.headerPart fun _ => Local.pure _
  · exact Local.pure _

/-- A header is what it says, and the offset behind it. -/
lemma fieldHeader_eq (r : Reader) :
    fieldHeader r =
      match headerWords r with
      | .ok (word, size, format) r' => .ok ⟨word, UInt16.ofNat word.toNat, size, format, r'.pos⟩ r'
      | .error e r' => .error e r' := by
  unfold fieldHeader headerWords
  simp only [bind_apply]
  cases headerPart r with
  | error e r' => rfl
  | ok word r' =>
    dsimp only
    split
    · rw [bind_apply, bind_apply]
      cases headerPart r' <;> rfl
    · rfl

/-- What a header says is read in one word or two, or the header is corrupt. -/
lemma headerWords_cases (hr : r.Sound) :
    (∃ word size format n, 4 ≤ n ∧ n ≤ r.ahead.length ∧
      headerWords r = .ok (word, size, format) (r.advance n)) ∨
    ∃ c n, n ≤ r.ahead.length ∧ headerWords r = .error (.corruption c) (r.advance n) := by
  unfold headerWords
  rw [bind_apply]
  rcases headerPart_cases hr with ⟨word, h, hread, -⟩ | ⟨-, hread⟩
  · rw [hread]
    dsimp only
    split
    · rw [bind_apply]
      rcases headerPart_cases (hr.advance h) with ⟨size, h', hread', -⟩ | ⟨-, hread'⟩
      · rw [Reader.ahead_advance, List.length_drop] at h'
        refine .inl ⟨word, size.toNat, .delimited, 8, by omega, by omega, ?_⟩
        rw [hread', Reader.advance_advance]
        rfl
      · rw [hread']
        exact .inr ⟨_, 4, h, rfl⟩
    · exact .inl ⟨word, _, .fixed, 4, Nat.le_refl 4, h, rfl⟩
  · rw [hread]
    exact .inr ⟨_, 0, Nat.zero_le _, rfl⟩

/-- A header takes at least a word, and its payload starts behind it; or it is corrupt. -/
theorem fieldHeader_cases (hr : r.Sound) :
    (∃ header n, 4 ≤ n ∧ n ≤ r.ahead.length ∧ header.payloadStart = r.pos + n ∧
      fieldHeader r = .ok header (r.advance n)) ∨
    ∃ c n, n ≤ r.ahead.length ∧ fieldHeader r = .error (.corruption c) (r.advance n) := by
  rw [fieldHeader_eq]
  rcases headerWords_cases hr with ⟨word, size, format, n, h4, hn, hread⟩ | ⟨c, n, hn, hread⟩
  · rw [hread]
    exact .inl ⟨_, n, h4, hn, rfl, rfl⟩
  · rw [hread]
    exact .inr ⟨c, n, hn, rfl⟩

end Read

namespace FieldHeader

variable {header : FieldHeader} {r : Reader}

/-- An extent that ends in a buffer is not cut off at the greatest offset. -/
lemma stop_eq (hr : r.Sound) (h : header.stop ≤ r.limit) :
    header.stop = header.payloadStart + header.size := by
  have hlimit := Nat.le_trans hr.limit_le hr.size_le
  simp only [stop, maxOffset, maxBuffer, UInt64.size] at *
  omega

/-- The reader on a payload, as the part of the reader behind the header that it is. -/
lemma window_eq {n : Nat} (hstart : header.payloadStart = r.pos + n)
    (hle : header.payloadStart ≤ header.stop) :
    (r.advance n).narrow (header.stop - header.payloadStart) = header.window r.bytes := by
  simp only [Reader.narrow, Reader.advance, window, hstart]
  rw [Nat.add_sub_cancel' (by omega)]

/-- The payload of a field ends in the buffer just if its bytes are there. -/
lemma stop_le_iff (hr : r.Sound) {n : Nat} (hstart : header.payloadStart = r.pos + n) :
    header.stop ≤ r.limit ↔ n + header.size ≤ r.ahead.length := by
  have hlimit := Nat.le_trans hr.limit_le hr.size_le
  have heq := Reader.limit_eq hr
  simp only [stop, maxOffset, maxBuffer, UInt64.size] at *
  omega

/-- The reader on a payload is sound, and sees the bytes behind the header. -/
lemma window_ahead (hr : r.Sound) {n : Nat} (hstart : header.payloadStart = r.pos + n)
    (hstop : header.stop ≤ r.limit) :
    (header.window r.bytes).Sound ∧
      (header.window r.bytes).ahead = (r.ahead.drop n).take header.size := by
  have hsize := (stop_le_iff hr hstart).mp hstop
  have heq := stop_eq hr hstop
  have hadvance := hr.advance (show n ≤ r.ahead.length by omega)
  have hroom : header.size ≤ (r.advance n).ahead.length := by
    rw [Reader.ahead_advance, List.length_drop]
    omega
  rw [← window_eq hstart (by omega), show header.stop - header.payloadStart = header.size by omega]
  refine ⟨hadvance.narrow hroom, ?_⟩
  rw [Reader.ahead_narrow hadvance hroom, Reader.ahead_advance]

/-- The payload of a header that was read starts in the buffer, so that it does not end before
it starts. -/
lemma payloadStart_le_stop (hr : r.Sound) {n : Nat} (hn : n ≤ r.ahead.length)
    (hstart : header.payloadStart = r.pos + n) : header.payloadStart ≤ header.stop := by
  have hlimit := Nat.le_trans hr.limit_le hr.size_le
  have heq := Reader.limit_eq hr
  simp only [stop, maxOffset, maxBuffer, UInt64.size] at *
  omega

end FieldHeader

namespace Read

variable {r : Reader}

/-- Where the bytes ahead are the same, the same headers are read, at different offsets. -/
theorem fieldHeader_matched {r₁ r₂ : Reader} (hr₁ : r₁.Sound) (hr₂ : r₂.Sound)
    (hahead : r₁.ahead = r₂.ahead) :
    (∃ header₁ header₂ n, 4 ≤ n ∧ n ≤ r₁.ahead.length ∧
      header₁.payloadStart = r₁.pos + n ∧ header₂.payloadStart = r₂.pos + n ∧
      header₁.id = header₂.id ∧ header₁.size = header₂.size ∧
      fieldHeader r₁ = .ok header₁ (r₁.advance n) ∧
      fieldHeader r₂ = .ok header₂ (r₂.advance n)) ∨
    ∃ c₁ c₂ n, n ≤ r₁.ahead.length ∧
      fieldHeader r₁ = .error (.corruption c₁) (r₁.advance n) ∧
      fieldHeader r₂ = .error (.corruption c₂) (r₂.advance n) := by
  have hmatch := Local.headerWords r₁ r₂ hr₁ hr₂ hahead
  have hcases₁ := headerWords_cases hr₁
  have hcases₂ := headerWords_cases hr₂
  rw [fieldHeader_eq, fieldHeader_eq]
  generalize headerWords r₁ = result₁, headerWords r₂ = result₂ at hmatch hcases₁ hcases₂ ⊢
  cases hmatch with
  | ok words n hn =>
    obtain ⟨word, size, format⟩ := words
    rcases hcases₁ with ⟨_, _, _, n', h4, -, hread⟩ | ⟨c, n', -, hread⟩
    · injection hread with _ hreader
      have hpos : r₁.pos + n = r₁.pos + n' := congrArg Reader.pos hreader
      exact .inl ⟨⟨word, UInt16.ofNat word.toNat, size, format, r₁.pos + n⟩,
        ⟨word, UInt16.ofNat word.toNat, size, format, r₂.pos + n⟩, n, by omega, hn,
        rfl, rfl, rfl, rfl, rfl, rfl⟩
    · cases hread
  | error e₁ e₂ n hn =>
    rcases hcases₁ with ⟨_, _, _, _, -, -, hread⟩ | ⟨c₁, _, -, hread₁⟩
    · cases hread
    · rcases hcases₂ with ⟨_, _, _, _, -, -, hread⟩ | ⟨c₂, _, -, hread₂⟩
      · cases hread
      · injection hread₁ with he₁
        injection hread₂ with he₂
        rw [he₁, he₂]
        exact .inr ⟨c₁, c₂, n, hn, rfl, rfl⟩

/-! ## Frames -/

/-- The end of a field is accepted exactly if it does not lie behind the limit. -/
lemma boundedStop_apply (header : FieldHeader) (r : Reader) :
    boundedStop header r =
      if header.stop > r.limit then
        .error (.corruption (.overread header.stop r.limit)) r
      else .ok header.stop r := by
  unfold boundedStop
  rw [bind_apply]
  simp only [limit]
  split <;> rfl

/-- A field that ends before the limit is passed over, any other is corrupt. -/
lemma skipField_apply {header : FieldHeader} {r : Reader} (hpos : r.pos ≤ header.stop) :
    skipField header r =
      if header.stop > r.limit then
        .error (.corruption (.overread header.stop r.limit)) r
      else .ok () (r.advance (header.stop - r.pos)) := by
  unfold skipField
  rw [bind_apply, boundedStop_apply]
  by_cases hstop : header.stop > r.limit
  · rw [if_pos hstop, if_pos hstop]
  · rw [if_neg hstop, if_neg hstop]
    show mapError FrameError.buffer (seek header.stop) r = _
    simp only [mapError, seek]
    rw [if_neg (by omega)]
    simp only [Reader.advance, Nat.add_sub_cancel' hpos]

/-- The header of an object promises bytes that are there, or it is corrupt. -/
theorem objectHeader_cases (hr : r.Sound) :
    (∃ n size, 4 ≤ n ∧ n + size ≤ r.ahead.length ∧
      objectHeader r = .ok (r.pos + n + size) (r.advance n)) ∨
    ∃ c n, n ≤ r.ahead.length ∧ objectHeader r = .error (.corruption c) (r.advance n) := by
  unfold objectHeader
  rw [bind_apply]
  rcases fieldHeader_cases hr with ⟨header, n, h4, hn, hstart, hread⟩ | ⟨c, n, hn, hread⟩
  · rw [hread]
    dsimp only
    split
    · exact .inr ⟨_, n, hn, rfl⟩
    · rw [boundedStop_apply, Reader.advance_limit]
      split
      · exact .inr ⟨_, n, hn, rfl⟩
      · have hstop := @FieldHeader.stop_eq header r hr (by omega)
        have heq := Reader.limit_eq hr
        refine .inl ⟨n, header.size, h4, by omega, ?_⟩
        rw [hstop, hstart]
  · rw [hread]
    exact .inr ⟨c, n, hn, rfl⟩

/-- Where the bytes ahead are the same, the same frame is promised, at a different offset. -/
theorem objectHeader_matched {r₁ r₂ : Reader} (hr₁ : r₁.Sound) (hr₂ : r₂.Sound)
    (hahead : r₁.ahead = r₂.ahead) :
    (∃ n size, n + size ≤ r₁.ahead.length ∧
      objectHeader r₁ = .ok (r₁.pos + n + size) (r₁.advance n) ∧
      objectHeader r₂ = .ok (r₂.pos + n + size) (r₂.advance n)) ∨
    ∃ c₁ c₂ n, n ≤ r₁.ahead.length ∧
      objectHeader r₁ = .error (.corruption c₁) (r₁.advance n) ∧
      objectHeader r₂ = .error (.corruption c₂) (r₂.advance n) := by
  unfold objectHeader
  rw [bind_apply, bind_apply]
  rcases fieldHeader_matched hr₁ hr₂ hahead with
    ⟨header₁, header₂, n, -, hn, hstart₁, hstart₂, hid, hsize, hread₁, hread₂⟩ |
    ⟨c₁, c₂, n, hn, hread₁, hread₂⟩
  · rw [hread₁, hread₂]
    dsimp only
    rw [← hid]
    by_cases hmagic : header₁.id ≠ objectMagic
    · rw [if_pos hmagic, if_pos hmagic]
      exact .inr ⟨_, _, n, hn, rfl, rfl⟩
    · rw [if_neg hmagic, if_neg hmagic, boundedStop_apply, boundedStop_apply,
        Reader.advance_limit, Reader.advance_limit]
      have hiff₁ := FieldHeader.stop_le_iff hr₁ hstart₁
      have hiff₂ := FieldHeader.stop_le_iff hr₂ hstart₂
      rw [← hsize, ← hahead] at hiff₂
      by_cases hroom : n + header₁.size ≤ r₁.ahead.length
      · have hstop₁ := hiff₁.mpr hroom
        have hstop₂ := hiff₂.mpr hroom
        rw [if_neg (by omega), if_neg (by omega), FieldHeader.stop_eq hr₁ hstop₁,
          FieldHeader.stop_eq hr₂ hstop₂, hstart₁, hstart₂, ← hsize]
        exact .inl ⟨n, header₁.size, hroom, rfl, rfl⟩
      · rw [if_pos (by omega), if_pos (by omega)]
        exact .inr ⟨_, _, n, hn, rfl, rfl⟩
  · rw [hread₁, hread₂]
    exact .inr ⟨c₁, c₂, n, hn, rfl, rfl⟩

/-- At the end of the frame no header is left. -/
lemma fieldHeaders_end (fuel : Nat) (hpos : r.pos = r.limit) :
    fieldHeaders r.limit fuel r = .ok [] r := by
  cases fuel with
  | zero => rfl
  | succ fuel =>
    show (if r.pos < r.limit then _ else _ : Read FrameError (List FieldHeader)) r = _
    rw [if_neg (by omega)]
    rfl

/-- Before the end of the frame a header is read and its payload passed over, unless the header
is corrupt or promises more than there is. -/
lemma fieldHeaders_step (fuel : Nat) (hr : r.Sound) (hpos : r.pos < r.limit) :
    (∃ header n, 4 ≤ n ∧ n ≤ r.ahead.length ∧ header.payloadStart = r.pos + n ∧
      fieldHeader r = .ok header (r.advance n) ∧
      ((header.stop ≤ r.limit ∧
        fieldHeaders r.limit (fuel + 1) r =
          match fieldHeaders r.limit fuel (r.advance (header.stop - r.pos)) with
          | .ok rest r' => .ok (header :: rest) r'
          | .error e r' => .error e r') ∨
      (r.limit < header.stop ∧
        fieldHeaders r.limit (fuel + 1) r =
          .error (.corruption (.overread header.stop r.limit)) (r.advance n)))) ∨
    ∃ c n, n ≤ r.ahead.length ∧ fieldHeader r = .error (.corruption c) (r.advance n) ∧
      fieldHeaders r.limit (fuel + 1) r = .error (.corruption c) (r.advance n) := by
  have hstep : fieldHeaders r.limit (fuel + 1) r =
      (do
        let header ← fieldHeader
        skipField header
        let rest ← fieldHeaders r.limit fuel
        return header :: rest : Read FrameError (List FieldHeader)) r := by
    show (if r.pos < r.limit then _ else _ : Read FrameError (List FieldHeader)) r = _
    rw [if_pos hpos]
  rw [hstep, bind_apply]
  rcases fieldHeader_cases hr with ⟨header, n, h4, hn, hstart, hread⟩ | ⟨c, n, hn, hread⟩
  · have hle := FieldHeader.payloadStart_le_stop hr hn hstart
    refine .inl ⟨header, n, h4, hn, hstart, hread, ?_⟩
    rw [hread]
    dsimp only
    rw [bind_apply, skipField_apply (by rw [Reader.advance_pos]; omega), Reader.advance_limit]
    by_cases hstop : header.stop > r.limit
    · rw [if_pos hstop]
      exact .inr ⟨hstop, rfl⟩
    · rw [if_neg hstop, Reader.advance_pos, Reader.advance_advance,
        show n + (header.stop - (r.pos + n)) = header.stop - r.pos by omega]
      dsimp only
      rw [bind_apply]
      refine .inl ⟨by omega, ?_⟩
      cases fieldHeaders r.limit fuel (r.advance (header.stop - r.pos)) <;> rfl
  · rw [hread]
    exact .inr ⟨c, n, hn, rfl, rfl⟩

/-- The headers that are read fill the frame, or the frame is corrupt. -/
theorem fieldHeaders_cases (fuel : Nat) (hr : r.Sound) (hfuel : r.ahead.length ≤ fuel) :
    (∃ headers, fieldHeaders r.limit fuel r = .ok headers (r.advance r.ahead.length) ∧
      FieldHeader.Tile r.bytes r.limit r.pos headers) ∨
    ∃ c n, n ≤ r.ahead.length ∧
      fieldHeaders r.limit fuel r = .error (.corruption c) (r.advance n) := by
  induction fuel generalizing r with
  | zero =>
    have hlimit := Reader.limit_eq hr
    have hpos : r.pos = r.limit := by omega
    rw [fieldHeaders_end 0 hpos, show r.ahead.length = 0 by omega, hpos]
    exact .inl ⟨[], rfl, .nil⟩
  | succ fuel ih =>
    have hlimit := Reader.limit_eq hr
    by_cases hpos : r.pos < r.limit
    · rcases fieldHeaders_step fuel hr hpos with
        ⟨header, n, h4, hn, hstart, hread, ⟨hstop, hstep⟩ | ⟨-, hstep⟩⟩ | ⟨c, n, hn, -, hstep⟩
      · -- behind the field the same holds with less fuel
        have hle := FieldHeader.payloadStart_le_stop hr hn hstart
        have hfield : header.stop - r.pos ≤ r.ahead.length := by omega
        have hrest := ih (hr.advance hfield)
          (by rw [Reader.ahead_advance, List.length_drop]; omega)
        rw [Reader.advance_limit, Reader.ahead_advance, List.length_drop,
          Reader.advance_advance] at hrest
        rcases hrest with ⟨headers, hread', htile⟩ | ⟨c, m, hm, hread'⟩
        · refine .inl ⟨header :: headers, ?_, ?_⟩
          · rw [hstep, hread', show header.stop - r.pos + (r.ahead.length -
              (header.stop - r.pos)) = r.ahead.length by omega]
          · have hreader : (⟨r.bytes, r.pos, r.limit⟩ : Reader) = r := rfl
            have hbehind : r.advance n = ⟨r.bytes, header.payloadStart, r.limit⟩ := by
              rw [hstart]
              rfl
            refine .cons ?_ (by omega) hle hstop ?_
            · rw [hreader, hread, hbehind]
            · rw [Reader.advance_bytes, Reader.advance_pos,
                show r.pos + (header.stop - r.pos) = header.stop by omega] at htile
              exact htile
        · refine .inr ⟨c, header.stop - r.pos + m, by omega, ?_⟩
          rw [hstep, hread', Reader.advance_advance]
      · exact .inr ⟨_, n, hn, hstep⟩
      · exact .inr ⟨c, n, hn, hstep⟩
    · have hend : r.pos = r.limit := by omega
      rw [fieldHeaders_end _ hend, show r.ahead.length = 0 by omega, hend]
      exact .inl ⟨[], rfl, .nil⟩

/-- Behind the header of an object the fields are outlined under the limit that it promises. -/
lemma outline_eq (hr : r.Sound) {n size : Nat} (hsize : n + size ≤ r.ahead.length)
    (hread : objectHeader r = .ok (r.pos + n + size) (r.advance n)) :
    outline r =
      match fieldHeaders (r.pos + n + size) size ((r.advance n).narrow size) with
      | .ok headers r' => .ok ⟨r.pos + n + size, headers⟩ { r' with limit := r.limit }
      | .error e r' => .error e { r' with limit := r.limit } := by
  have hwithin := within_narrow FrameError.buffer
    (fieldHeaders (r.pos + n + size) (r.pos + n + size - (r.advance n).pos))
    (hr.advance (show n ≤ r.ahead.length by omega))
    (show size ≤ (r.advance n).ahead.length by
      rw [Reader.ahead_advance, List.length_drop]
      omega)
  rw [Reader.advance_pos, Nat.add_sub_cancel_left] at hwithin
  unfold outline
  rw [bind_apply, hread]
  dsimp only
  rw [bind_apply]
  simp only [position, Reader.advance_pos, Nat.add_sub_cancel_left]
  rw [bind_apply, hwithin]
  cases fieldHeaders (r.pos + n + size) size ((r.advance n).narrow size) <;> rfl

/-- The fields of a frame fill it, or the frame is corrupt. -/
theorem outline_cases (hr : r.Sound) :
    (∃ frame start, outline r = .ok frame (r.advance (frame.stop - r.pos)) ∧
      r.pos + 4 ≤ start ∧ start ≤ frame.stop ∧ frame.stop ≤ r.limit ∧
      FieldHeader.Tile r.bytes frame.stop start frame.headers) ∨
    ∃ c n, n ≤ r.ahead.length ∧ outline r = .error (.corruption c) (r.advance n) := by
  rcases objectHeader_cases hr with ⟨n, size, h4, hsize, hread⟩ | ⟨c, n, hn, hread⟩
  · have hlimit := Reader.limit_eq hr
    have hn : n ≤ r.ahead.length := by omega
    have hroom : size ≤ (r.advance n).ahead.length := by
      rw [Reader.ahead_advance, List.length_drop]
      omega
    have hlength : ((r.advance n).narrow size).ahead.length = size := by
      rw [Reader.ahead_narrow (hr.advance hn) hroom, List.length_take, Nat.min_eq_left hroom]
    have hfields := fieldHeaders_cases size ((hr.advance hn).narrow hroom)
      (Nat.le_of_eq hlength)
    rw [Reader.narrow_limit, Reader.advance_pos, hlength] at hfields
    rw [outline_eq hr hsize hread]
    rcases hfields with ⟨headers, hread', htile⟩ | ⟨c, m, hm, hread'⟩
    · rw [hread']
      refine .inl ⟨⟨r.pos + n + size, headers⟩, r.pos + n, ?_, by omega,
        Nat.le_add_right _ _, ?_, htile⟩
      · simp only [Reader.advance, Reader.narrow, Nat.add_assoc, Nat.add_sub_cancel_left]
      · show r.pos + n + size ≤ r.limit
        omega
    · rw [hread']
      refine .inr ⟨c, n + m, by omega, ?_⟩
      simp only [Reader.advance, Reader.narrow, Nat.add_assoc]
  · refine .inr ⟨c, n, hn, ?_⟩
    unfold outline
    rw [bind_apply, hread]

end Read

end TaggedParcel
