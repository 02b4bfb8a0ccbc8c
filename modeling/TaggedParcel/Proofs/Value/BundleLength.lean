import TaggedParcel.Proofs.Value.DepthLaw

set_option relaxedAutoImplicit false
set_option autoImplicit false

/-!
# The length word of a bundle

The first word of a bundle is its length, which is patched once the entries are written. The patch
takes any size of 32 bits, but a reader takes the word for a signed one, as it does with every
length. So entries of 2 ^ 31 bytes and more get a length that no reader accepts. It is never the
null marker, because entries are whole words and the marker is no multiple of four.

## Main results

* `Read.length_digits` — what a reader makes of a size that was written as a word.
* `Bundle.write_length` — the length of a bundle that was written, read back.
* `Bundle.refused_of_long` — bundles that are written, and refused when they are read.
-/

namespace TaggedParcel

/-! ## Sizes read as lengths -/

/-- A size above the greatest length is read as a negative number. -/
lemma Read.toInt_of_long {n : Nat} (hlong : Write.maxLength < n) (hn : n < UInt32.size) :
    (Int32.ofNat n).toInt = (n : Int) - UInt32.size := by
  rw [Int32.toInt_ofNat', Int.bmod_def]
  simp only [Write.maxLength, UInt32.size, Int32.size] at *
  omega

/-- A size of whole words that was written as a word is read back, unless it is too great for a
length. Then it is refused as a negative length, and not taken for the null marker. -/
lemma Read.length_digits {r : Reader} (hr : r.Sound) {n : Nat} (hn : n < UInt32.size)
    (hwords : 4 ∣ n) (hword : LittleEndian.digits 4 n <+: r.ahead) :
    Read.length r =
      if n ≤ Write.maxLength then .ok (some n) (r.advance 4)
      else .error (.invalidLength (Int32.ofNat n)) (r.advance 4) := by
  by_cases hshort : n ≤ Write.maxLength
  · rw [if_pos hshort, (Parses.i32 n).length hshort r hr hword, LittleEndian.length_digits]
  · have hint := toInt_of_long (by omega) hn
    have hnull : Int32.ofNat n ≠ -1 := by
      intro heq
      rw [heq, show (-1 : Int32).toInt = -1 from rfl] at hint
      simp only [UInt32.size] at *
      omega
    have hnegative : Int32.ofNat n < 0 := by
      refine Int32.lt_iff_toInt_lt.mpr ?_
      rw [hint, show (0 : Int32).toInt = 0 from rfl]
      omega
    rw [if_neg hshort]
    unfold Read.length
    rw [bind_apply, Parses.i32 n r hr hword]
    dsimp only
    rw [if_neg hnull, if_pos hnegative, LittleEndian.length_digits]
    rfl

/-! ## Bundles -/

/-- A reader that starts where bytes were appended has just these ahead. -/
lemma Writer.ahead_append (w : Writer) (bs : List UInt8) :
    Reader.ahead ⟨(w.append bs).bytes, w.position, (w.append bs).bytes.size⟩ = bs := by
  have hposition : w.position = w.bytes.toList.length := rfl
  rw [Reader.ahead_eq_drop_take, append_eq_toArray, hposition, List.size_toArray, List.take_length,
    List.drop_left]

/-- A bundle that is written is a length word, the magic, and as many bytes as the length word
says, which are whole words. Read back, the length word is this number, if it is one that a length
may be. Otherwise it is refused as negative.

**Proof sketch.** The entries append the same whole words wherever they start, so the word that is
patched holds their size. Up to `Write.maxLength` this is a length. Beyond it the sign bit is set,
and as the size is a multiple of four it is not the null marker. -/
theorem Bundle.write_length {bundle : Bundle} {level maxDepth : Nat} {w w' : Writer}
    (hroom : w'.bytes.size ≤ maxBuffer) (h : bundle.write level maxDepth w = .ok () w') :
    ∃ body : List UInt8, w' = w.append (Write.bundleBytes body) ∧
      w'.position = w.position + 8 + body.length ∧ 4 ∣ body.length ∧
      body.length < UInt32.size ∧
      Read.length ⟨w'.bytes, w.position, w'.bytes.size⟩ =
        if body.length ≤ Write.maxLength then
          .ok (some body.length) ⟨w'.bytes, w.position + 4, w'.bytes.size⟩
        else
          .error (.invalidLength (Int32.ofNat body.length))
            ⟨w'.bytes, w.position + 4, w'.bytes.size⟩ := by
  obtain ⟨result, hemits, hform⟩ :=
    Write.Steady.bundleEntries fun entry (_ : entry ∈ bundle) =>
      Write.Steady.value level maxDepth entry.2
  have hwrite := hemits.bundleWith
  cases result with
  | error e =>
    obtain ⟨bs, hrun⟩ := hwrite w
    cases h.symm.trans hrun
  | ok body =>
    simp only [Except.bind, Write.bundleFrame] at hwrite
    by_cases hlt : body.length < UInt32.size
    · rw [if_pos hlt] at hwrite
      cases h.symm.trans (hwrite w)
      have hwords := (hform body rfl).1
      have hposition : (w.append (Write.bundleBytes body)).position =
          w.position + 8 + body.length := by
        rw [Writer.position_append, Write.bundleBytes, List.length_append, List.length_append,
          LittleEndian.length_digits, LittleEndian.length_digits]
        omega
      have hstart : w.position ≤ (w.append (Write.bundleBytes body)).position := by omega
      have hahead : LittleEndian.digits 4 body.length <+: Reader.ahead ⟨(w.append
          (Write.bundleBytes body)).bytes, w.position,
            (w.append (Write.bundleBytes body)).bytes.size⟩ := by
        rw [Writer.ahead_append]
        exact List.prefix_append _ _
      exact ⟨body, rfl, hposition, hwords, hlt,
        Read.length_digits ⟨hstart, Nat.le_refl _, hroom⟩ hlt hwords hahead⟩
    · rw [if_neg hlt] at hwrite
      obtain ⟨bs, hrun⟩ := hwrite w
      cases h.symm.trans hrun

namespace Sample

/-- A bundle with one array of zeros, under the empty text. -/
def zeroBundle (size : Nat) : Bundle :=
  [("", .byteArray (Array.replicate size 0))]

/-- The entries of the bundle are their number, the text, the tag, the length and the zeros. -/
lemma length_zeroBundle {size : Nat} (hwords : 4 ∣ size) :
    (Value.bundleBody (zeroBundle size)).length = 20 + size := by
  have htext : (textBytes "").length = 8 := by decide
  have hpad : padTo4 size = size := by
    unfold padTo4
    omega
  simp only [Value.bundleBody, zeroBundle, Value.entryEncodings, Value.payload, arrayBytes,
    int32Bytes, List.length_append, htext, Write.length_arrayBody, LittleEndian.length_digits,
    Array.size_replicate, hpad, List.length_nil]
  omega

/-- The bundle is written, unless the array has a length that no array may have. -/
lemma write_zeroBundle {size : Nat} (hsize : size ≤ Write.maxLength) (hwords : 4 ∣ size)
    (level maxDepth : Nat) (w : Writer) :
    Bundle.write (zeroBundle size) level maxDepth w =
      .ok () (w.append (Write.bundleBytes (Value.bundleBody (zeroBundle size)))) := by
  have hfits : (Value.byteArray (Array.replicate size 0)).Sized := by
    refine .mk ?_ fun child hchild => nomatch hchild
    rw [Value.LengthsFit, Array.size_replicate]
    exact hsize
  have hcount : (zeroBundle size).length ≤ Write.maxLength := by
    rw [zeroBundle, List.length_singleton]
    decide
  have hkeys : ∀ entry ∈ zeroBundle size, Value.TextFits entry.1 := by
    intro entry hentry
    rw [List.mem_singleton.mp hentry]
    exact Nat.zero_le _
  have hvalues : ∀ entry ∈ zeroBundle size, Write.Guarded (.tooDeep maxDepth)
      (entry.2.depth ≤ maxDepth - level) (entry.2.write level maxDepth) entry.2.encoding := by
    intro entry hentry
    rw [List.mem_singleton.mp hentry]
    exact Value.writeWithin_guarded maxDepth hfits _
  have hdepth : ∀ entry ∈ zeroBundle size, entry.2.depth ≤ maxDepth - level := by
    intro entry hentry
    rw [List.mem_singleton.mp hentry]
    exact Nat.zero_le _
  have hemits := ((Write.Guarded.bundleEntries hcount hkeys hvalues).emits hdepth).bundleWith
  have hlength : (Value.bundleBody (zeroBundle size)).length < UInt32.size := by
    rw [length_zeroBundle hwords]
    simp only [Write.maxLength, UInt32.size] at *
    omega
  simp only [Except.bind, Write.bundleFrame] at hemits
  rw [if_pos hlength] at hemits
  exact hemits w

/-- A writer that holds a word and, behind it, the bundle with four zeros. -/
def zeroWriter : Writer :=
  ⟨⟨#[1, 2, 3, 4,  24, 0, 0, 0, 0x42, 0x4E, 0x44, 0x4C,  1, 0, 0, 0, 0, 0, 0, 0, 0, 0, 0, 0,
    13, 0, 0, 0, 4, 0, 0, 0, 0, 0, 0, 0]⟩⟩

end Sample

namespace Bundle

/-- The length word of a small bundle is read as the number of the bytes behind its magic. -/
theorem write_length_zeros :
    Sample.zeroWriter.bytes.size ≤ maxBuffer ∧
      Bundle.write (Sample.zeroBundle 4) 0 1 ⟨⟨#[1, 2, 3, 4]⟩⟩ = .ok () Sample.zeroWriter ∧
      Read.length ⟨Sample.zeroWriter.bytes, 4, 36⟩ =
        .ok (some 24) ⟨Sample.zeroWriter.bytes, 8, 36⟩ := by
  have hroom : Sample.zeroWriter.bytes.size ≤ maxBuffer := by decide
  have hwrite : Bundle.write (Sample.zeroBundle 4) 0 1 ⟨⟨#[1, 2, 3, 4]⟩⟩ =
      .ok () Sample.zeroWriter := rfl
  obtain ⟨body, -, hposition, -, -, hread⟩ := write_length hroom hwrite
  have hstop : Sample.zeroWriter.position = 36 := rfl
  have hstart : (Writer.mk ⟨#[1, 2, 3, 4]⟩).position = 4 := rfl
  rw [hstop, hstart] at hposition
  rw [show body.length = 24 by omega] at hread
  exact ⟨hroom, hwrite, hread⟩

/-- Where an array of zeros makes the entries of a bundle too long for a length, the bundle is
written all the same. A reader refuses its length word, and so the bundle. -/
lemma refused_of_long {size : Nat} (hsize : size ≤ Write.maxLength) (hwords : 4 ∣ size)
    (hlong : Write.maxLength < 20 + size) (level maxDepth : Nat) (limits : Limits) :
    ∃ w : Writer, Bundle.write (Sample.zeroBundle size) level maxDepth .empty = .ok () w ∧
      w.position = 8 + (20 + size) ∧
      Read.length (.ofBytes w.bytes) =
        .error (.invalidLength (Int32.ofNat (20 + size))) ((Reader.ofBytes w.bytes).advance 4) ∧
      Bundle.read limits level (.ofBytes w.bytes) =
        .error (.buffer (.invalidLength (Int32.ofNat (20 + size))))
          ((Reader.ofBytes w.bytes).advance 4) := by
  have hwrite := Sample.write_zeroBundle hsize hwords level maxDepth .empty
  have hbody := Sample.length_zeroBundle hwords
  generalize Value.bundleBody (Sample.zeroBundle size) = body at hwrite hbody
  generalize hw : Writer.empty.append (Write.bundleBytes body) = w at hwrite
  have hposition : w.position = 8 + (20 + size) := by
    rw [← hw, Writer.position_append, Write.bundleBytes, List.length_append, List.length_append,
      LittleEndian.length_digits, LittleEndian.length_digits, hbody,
      show Writer.empty.position = 0 from rfl]
    omega
  have hahead : LittleEndian.digits 4 (20 + size) <+: (Reader.ofBytes w.bytes).ahead := by
    have hbytes : (Reader.ofBytes w.bytes).ahead = Write.bundleBytes body := by
      rw [← hw]
      exact Writer.ahead_append .empty _
    rw [hbytes, Write.bundleBytes, hbody]
    exact List.prefix_append _ _
  have hlt : 20 + size < UInt32.size := by
    simp only [Write.maxLength, UInt32.size] at *
    omega
  have hsound : (Reader.ofBytes w.bytes).Sound := by
    refine Reader.sound_ofBytes ?_
    rw [show w.bytes.size = w.position from rfl, hposition]
    simp only [UInt32.size, maxBuffer] at *
    omega
  have hread := Read.length_digits hsound hlt (by omega) hahead
  rw [if_neg (by omega)] at hread
  have hlift : (liftM Read.length : Read FieldError (Option Nat)) (.ofBytes w.bytes) =
      .error (.buffer (.invalidLength (Int32.ofNat (20 + size))))
        ((Reader.ofBytes w.bytes).advance 4) := by
    show Read.mapError FieldError.buffer Read.length _ = _
    rw [Read.mapError, hread]
  refine ⟨w, hwrite, hposition, hread, ?_⟩
  unfold Bundle.read Read.bundleWith
  rw [bind_apply, hlift]

/-- With 2 ^ 31 bytes of entries a bundle is written, and its length word is that of the least
negative length. -/
theorem write_length_refused :
    ∃ w : Writer, Bundle.write (Sample.zeroBundle 0x7FFFFFEC) 0 1 .empty = .ok () w ∧
      w.position = 8 + 0x80000000 ∧
      Read.length (.ofBytes w.bytes) =
        .error (.invalidLength (-0x80000000)) ((Reader.ofBytes w.bytes).advance 4) ∧
      Bundle.read .unlimited 0 (.ofBytes w.bytes) =
        .error (.buffer (.invalidLength (-0x80000000))) ((Reader.ofBytes w.bytes).advance 4) := by
  have hrefused := refused_of_long (show 0x7FFFFFEC ≤ Write.maxLength by decide) (by decide)
    (by decide) 0 1 .unlimited
  have hlength : Int32.ofNat (20 + 0x7FFFFFEC) = -0x80000000 := by decide
  rw [hlength] at hrefused
  exact hrefused

end Bundle

end TaggedParcel
