import TaggedParcel.Proofs.Buffer.Twin
import TaggedParcel.Proofs.Frame.Outline

set_option relaxedAutoImplicit false
set_option autoImplicit false

/-!
# Headers in two buffers

The header of an object says where the object ends, and reading it looks at nothing but the
header. So it reads the same under every limit behind the end, and under a limit before the end
it is overread.

## Main definitions

* `Reader.under` — a reader under another limit.

## Main results

* `Read.parallel_fieldHeader`, `Read.parallel_objectHeader` — headers read alike in twins.
* `Read.objectHeader_under` — the header of an object under another limit.
* `Read.objectHeader_extent` — which buffers start with the header of an object.
-/

namespace TaggedParcel

/-- A reader under another limit. -/
def Reader.under (r : Reader) (limit : Nat) : Reader :=
  { r with limit := limit }

/-- Twins under a lower limit are twins. -/
lemma Reader.Twin.under {extent stop : Nat} {r₁ r₂ : Reader} (h : Twin extent r₁ r₂)
    (hstop : stop ≤ r₁.limit) : Twin extent (r₁.under stop) (r₂.under stop) := by
  cases h with
  | intro pos limit hlimit hbytes => exact .intro pos stop (Nat.le_trans hstop hlimit) hbytes

namespace Read

open Reader (Twin)

variable {extent : Nat} {r r' : Reader}

/-! ## Headers of twins -/

/-- A word of a header is the same in two buffers that agree. -/
lemma parallel_headerPart : Parallel (Twin extent) headerPart := by
  intro r₁ r₂ hr
  have hword := Assembled.u32.parallel extent r₁ r₂ hr
  unfold headerPart
  generalize u32 r₁ = result₁, u32 r₂ = result₂ at hword ⊢
  cases hword with
  | ok word hr => exact .ok word hr
  | error e hr =>
    cases hr with
    | intro pos limit hlimit hbytes =>
      cases e <;> exact .error _ (.intro pos limit hlimit hbytes)

/-- A field header is the same in two buffers that agree. -/
lemma parallel_fieldHeader : Parallel (Twin extent) fieldHeader := by
  refine parallel_headerPart.bind fun word => ?_
  dsimp only
  split
  · exact parallel_headerPart.bind fun size => parallel_position.bind fun _ => .pure _
  · exact parallel_position.bind fun _ => .pure _

/-- The end of a field is checked in the same way in two buffers that agree. -/
lemma parallel_boundedStop (header : FieldHeader) :
    Parallel (Twin extent) (boundedStop header) := by
  refine parallel_limit.bind fun limit => ?_
  split
  · exact .throw _
  · exact .pure _

/-- An object header is the same in two buffers that agree. -/
lemma parallel_objectHeader : Parallel (Twin extent) objectHeader := by
  refine parallel_fieldHeader.bind fun header => ?_
  split
  · exact .throw _
  · exact parallel_boundedStop header

/-! ## Headers under other limits -/

/-- A header word is the next four bytes, if they are before the limit. -/
lemma headerPart_apply (r : Reader) :
    headerPart r =
      if r.limit < r.pos + 4 then .error (.corruption (.overread (r.pos + 4) r.limit)) r
      else .ok (UInt32.ofNat (LittleEndian.value (r.bytes.extract r.pos (r.pos + 4)).toList))
        { r with pos := r.pos + 4 } := by
  have hword : u32 r =
      if 4 > r.remaining then .error (.unexpectedEof 4 r.remaining) r
      else .ok (UInt32.ofNat (LittleEndian.value (r.bytes.extract r.pos (r.pos + 4)).toList))
        { r with pos := r.pos + 4 } := by
    unfold u32 word
    rw [bind_apply, bind_apply]
    by_cases h : 4 > r.remaining
    · simp only [raw, takePadded, if_pos h]
    · simp only [raw, takePadded, if_neg h]
      rfl
  have hroom : 4 > r.remaining ↔ r.limit < r.pos + 4 := by
    unfold Reader.remaining
    omega
  unfold headerPart
  rw [hword]
  by_cases h : r.limit < r.pos + 4
  · rw [if_pos h, if_pos (hroom.mpr h)]
  · rw [if_neg h, if_neg (mt hroom.mp h)]

/-- A header word under another limit is the same, or it is overread. -/
lemma headerPart_under {word : UInt32} (h : headerPart r = .ok word r') (limit : Nat) :
    r' = ⟨r.bytes, r.pos + 4, r.limit⟩ ∧ headerPart (r.under limit) =
      if limit < r.pos + 4 then .error (.corruption (.overread (r.pos + 4) limit)) (r.under limit)
      else .ok word (r'.under limit) := by
  rw [headerPart_apply] at h
  split at h
  · cases h
  · cases h
    refine ⟨rfl, ?_⟩
    rw [headerPart_apply]
    rfl

/-- The header of a field under another limit is the same, or it is overread. -/
lemma fieldHeader_under {header : FieldHeader} (h : fieldHeader r = .ok header r') (limit : Nat) :
    r' = ⟨r.bytes, header.payloadStart, r.limit⟩ ∧ header.payloadStart ≤ r.pos + 8 ∧
      if limit < header.payloadStart then
        ∃ stop r'', limit < stop ∧
          fieldHeader (r.under limit) = .error (.corruption (.overread stop limit)) r''
      else fieldHeader (r.under limit) = .ok header (r'.under limit) := by
  obtain ⟨word, r₁, hword, hrest⟩ := bind_ok h
  obtain ⟨rfl, hunder₁⟩ := headerPart_under hword limit
  have hcut : limit < r.pos + 4 → fieldHeader (r.under limit) =
      .error (.corruption (.overread (r.pos + 4) limit)) (r.under limit) := by
    intro hlt
    unfold fieldHeader
    rw [bind_apply, hunder₁, if_pos hlt]
  dsimp only at hrest
  split at hrest
  · -- the size is in a second word
    rename_i hescape
    obtain ⟨size, r₂, hsize, hanswer⟩ := bind_ok hrest
    obtain ⟨rfl, hunder₂⟩ := headerPart_under hsize limit
    cases hanswer
    refine ⟨rfl, Nat.le_refl _, ?_⟩
    dsimp only at hunder₂ ⊢
    by_cases hlt₁ : limit < r.pos + 4
    · rw [if_pos (by omega)]
      exact ⟨r.pos + 4, _, hlt₁, hcut hlt₁⟩
    · have hread : fieldHeader (r.under limit) =
          (headerPart >>= fun size => position >>= fun start =>
            pure ⟨word, UInt16.ofNat word.toNat, size.toNat, .delimited, start⟩ :
            Read FrameError FieldHeader) ⟨r.bytes, r.pos + 4, limit⟩ := by
        unfold fieldHeader
        rw [bind_apply, hunder₁, if_neg hlt₁]
        dsimp only
        rw [if_pos hescape]
        rfl
      rw [hread, bind_apply]
      rw [show headerPart ⟨r.bytes, r.pos + 4, limit⟩ = _ from hunder₂]
      by_cases hlt₂ : limit < r.pos + 4 + 4
      · rw [if_pos hlt₂, if_pos hlt₂]
        exact ⟨r.pos + 4 + 4, _, hlt₂, rfl⟩
      · rw [if_neg hlt₂, if_neg hlt₂]
        rfl
  · rename_i hfits
    cases hrest
    refine ⟨rfl, show r.pos + 4 ≤ r.pos + 8 by omega, ?_⟩
    dsimp only
    by_cases hlt : limit < r.pos + 4
    · rw [if_pos hlt]
      exact ⟨r.pos + 4, _, hlt, hcut hlt⟩
    · rw [if_neg hlt]
      unfold fieldHeader
      rw [bind_apply, hunder₁, if_neg hlt]
      dsimp only
      rw [if_neg hfits]
      rfl

/-- The header of an object near the start of a buffer reads the same under every limit that is
not before the end of the object, and is overread under a limit that is. -/
lemma objectHeader_under {stop : Nat} (h : objectHeader r = .ok stop r')
    (hstart : r.pos + 8 ≤ maxOffset) :
    ∃ start, r' = ⟨r.bytes, start, r.limit⟩ ∧ start ≤ stop ∧ stop ≤ r.limit ∧ ∀ limit,
      if limit < stop then
        ∃ stop' r'', limit < stop' ∧
          objectHeader (r.under limit) = .error (.corruption (.overread stop' limit)) r''
      else objectHeader (r.under limit) = .ok stop ⟨r.bytes, start, limit⟩ := by
  obtain ⟨header, r₁, hheader, hrest⟩ := bind_ok h
  obtain ⟨rfl, hwide, -⟩ := fieldHeader_under hheader 0
  split at hrest
  · cases hrest
  · rename_i hmagic
    rw [boundedStop_apply] at hrest
    split at hrest
    · cases hrest
    · rename_i hlimit
      cases hrest
      have hstop : header.payloadStart ≤ header.stop := by
        unfold FieldHeader.stop
        omega
      refine ⟨header.payloadStart, rfl, hstop, Nat.le_of_not_lt hlimit, fun limit => ?_⟩
      obtain ⟨-, -, hunder⟩ := fieldHeader_under hheader limit
      by_cases hlt : limit < header.payloadStart
      · rw [if_pos hlt] at hunder
        obtain ⟨stop', r'', hstop', hread⟩ := hunder
        rw [if_pos (by omega)]
        refine ⟨stop', r'', hstop', ?_⟩
        unfold objectHeader
        rw [bind_apply, hread]
      · rw [if_neg hlt] at hunder
        have hread : objectHeader (r.under limit) =
            boundedStop header ⟨r.bytes, header.payloadStart, limit⟩ := by
          unfold objectHeader
          rw [bind_apply, hunder]
          dsimp only
          rw [if_neg hmagic]
          rfl
        rw [hread, boundedStop_apply]
        split
        · rename_i hover
          exact ⟨header.stop, _, hover, rfl⟩
        · rfl

/-- The header of an object at the start of a buffer promises an extent in the buffer. Every
buffer that starts with the bytes of the extent starts with the same header, and a buffer that is
cut before the end of the extent is overread. -/
theorem objectHeader_extent {bytes : Array UInt8} {stop : Nat}
    (h : objectHeader (.ofBytes bytes) = .ok stop r') :
    ∃ start, r' = ⟨bytes, start, bytes.size⟩ ∧ start ≤ stop ∧ stop ≤ bytes.size ∧
      (∀ bytes' : Array UInt8, bytes.extract 0 stop = bytes'.extract 0 stop →
        stop ≤ bytes'.size →
        objectHeader (.ofBytes bytes') = .ok stop ⟨bytes', start, bytes'.size⟩) ∧
      ∀ k < stop, ∃ stop' r'', k < stop' ∧
        objectHeader (.ofBytes (bytes.extract 0 k)) =
          .error (.corruption (.overread stop' k)) r'' := by
  obtain ⟨start, hr', hstart, hstop, hunder⟩ :=
    objectHeader_under h (show 0 + 8 ≤ maxOffset by decide)
  refine ⟨start, hr', hstart, hstop, fun bytes' hbytes hsize => ?_, fun k hk => ?_⟩
  · -- under the limit `stop` the two buffers are the same
    have halike := parallel_objectHeader ((Reader.ofBytes bytes).under stop)
      ((Reader.ofBytes bytes').under stop) (.intro 0 stop (Nat.le_refl _) hbytes)
    have hsame := hunder stop
    rw [if_neg (Nat.lt_irrefl _)] at hsame
    rw [hsame] at halike
    generalize hread : objectHeader ((Reader.ofBytes bytes').under stop) = result at halike
    cases halike with
    | ok _ htwin =>
      cases htwin with
      | intro =>
        obtain ⟨start', hr', -, -, hunder'⟩ :=
          objectHeader_under hread (show 0 + 8 ≤ maxOffset by decide)
        cases hr'
        have hwhole := hunder' bytes'.size
        rw [if_neg (by omega)] at hwhole
        exact hwhole
  · have hsize : (bytes.extract 0 k).size = k := by
      have hle : k ≤ bytes.size := Nat.le_trans (Nat.le_of_lt hk) hstop
      rw [Array.size_extract, Nat.sub_zero, Nat.min_eq_left hle]
    have htwin : Twin k ((Reader.ofBytes bytes).under k) (.ofBytes (bytes.extract 0 k)) := by
      unfold Reader.ofBytes Reader.under
      rw [hsize]
      refine .intro 0 k (Nat.le_refl _) ?_
      rw [Array.extract_extract, Nat.zero_add, Nat.zero_add, Nat.min_self]
    have halike := parallel_objectHeader _ _ htwin
    have hcut := hunder k
    rw [if_pos hk] at hcut
    obtain ⟨stop', r'', hstop', hread⟩ := hcut
    rw [hread] at halike
    generalize objectHeader (.ofBytes (bytes.extract 0 k)) = result at halike ⊢
    cases halike with
    | error e _ => exact ⟨stop', _, hstop', rfl⟩

end Read

end TaggedParcel
