import TaggedParcel.Proofs.Text.Utf16
import TaggedParcel.Proofs.Value.Encoding

set_option relaxedAutoImplicit false
set_option autoImplicit false

/-!
# Which texts are read

Reading a text accepts just the bytes that writing it gives, but for the unit that ends the text
and the padding, which reading passes over. Whether and how reading fails is told by the length
word, by the number of bytes that are left, and by the surrogates among the units.

## Main results

* `Write.bytesOfUnits_unitsOfBytes` — pairs of bytes are the bytes of the units that they stand for.
* `Read.length_word` — what a length word is read as.
* `Read.string16_of_length` — what is read behind the length of a text.
* `Read.string16_exact` — when reading a text fails, and what is written for a text that was read.
-/

namespace TaggedParcel

/-- Pairs of bytes are the bytes of the units that they stand for. -/
lemma Write.bytesOfUnits_unitsOfBytes {bs : List UInt8} (hpairs : 2 ∣ bs.length) :
    bytesOfUnits (Read.unitsOfBytes bs) = bs := by
  have hgo (done : List UInt16) :
      bytesOfUnits (Read.unitsOfBytes.go bs done) = bytesOfUnits done.reverse ++ bs := by
    induction bs, done using Read.unitsOfBytes.go.induct with
    | case1 low high rest done ih =>
      have hlt := LittleEndian.value_lt [low, high]
      have hunit : (UInt16.ofNat (LittleEndian.value [low, high])).toNat =
          LittleEndian.value [low, high] := UInt16.toNat_ofNat_of_lt' hlt
      have hdigits := LittleEndian.digits_value [low, high]
      have hrest : 2 ∣ rest.length := by
        rw [List.length_cons, List.length_cons] at hpairs
        omega
      rw [Read.unitsOfBytes.go, ih hrest]
      simp only [bytesOfUnits, List.reverse_cons, List.flatMap_append, List.flatMap_singleton,
        hunit, List.append_assoc]
      rw [show (2 : Nat) = [low, high].length from rfl, hdigits]
      rfl
    | case2 bs done hshort =>
      -- a single byte would not be a pair
      have hnil : bs = [] := by
        match bs with
        | [] => rfl
        | [_] => simp at hpairs
        | low :: high :: rest => exact absurd rfl (hshort low high rest)
      rw [hnil, List.append_nil]
      rfl
  exact hgo []

/-- A word that is not negative is written as its number is. -/
lemma int32Bytes_of_toInt {word : Int32} {n : Nat} (hn : word.toInt = n) :
    n ≤ Write.maxLength ∧ int32Bytes word = LittleEndian.digits 4 n := by
  have hlt := word.toInt_lt
  have hword : word = Int32.ofNat n := Int32.toInt_inj.mp (by
    rw [hn, Int32.toInt_ofNat_of_lt (by omega)])
  have hsize : (Int32.ofNat n).toUInt32.toNat = n := UInt32.toNat_ofNat_of_lt' (by
    simp only [UInt32.size]
    omega)
  refine ⟨?_, ?_⟩
  · unfold Write.maxLength
    omega
  · rw [int32Bytes, hword, hsize]

namespace Read

variable {r : Reader} {word : Int32} {rest : List UInt8}

/-- A length is the word that is ahead, unless this is negative. -/
lemma length_word (hr : r.Sound) (hahead : r.ahead = int32Bytes word ++ rest) :
    length r =
      if word = -1 then .ok none (r.advance 4)
      else if word < 0 then .error (.invalidLength word) (r.advance 4)
      else .ok (some word.toInt.toNat) (r.advance 4) := by
  have hread := Parses.int32 word r hr ⟨rest, hahead.symm⟩
  rw [show (int32Bytes word).length = 4 from LittleEndian.length_digits _ _] at hread
  unfold length
  rw [bind_apply, hread]
  dsimp only
  split
  · rfl
  · split <;> rfl

/-- Where fewer bytes are left than a word takes, there is no length. -/
lemma string16_of_short (hr : r.Sound) (h : r.ahead.length < 4) :
    string16 r = .error (.unexpectedEof 4 r.ahead.length) r := by
  have hword : word 4 r = .error (.unexpectedEof 4 r.ahead.length) r := by
    unfold Read.word raw
    rw [bind_apply, takePadded_of_lt hr h]
  unfold string16 length i32 u32
  rw [bind_apply, bind_apply, bind_apply, bind_apply, hword]

/-- Behind the length of a text its units are decoded, if they are there and so are the unit that
ends them and the padding. -/
lemma string16_of_length (hr : r.Sound) {n : Nat} (hn : word.toInt = n)
    (hahead : r.ahead = int32Bytes word ++ rest) :
    string16 r =
      if rest.length < padTo4 (2 * (n + 1)) then
        .error (.unexpectedEof (padTo4 (2 * (n + 1))) rest.length) (r.advance 4)
      else
        match Utf16.decode? (unitsOfBytes (rest.take (2 * n))) with
        | some text => .ok (some (String.ofList text)) (r.advance (4 + padTo4 (2 * (n + 1))))
        | none => .error .invalidUtf16 (r.advance (4 + padTo4 (2 * (n + 1)))) := by
  have hwidth : (int32Bytes word).length = 4 := LittleEndian.length_digits _ _
  have hbehind : (r.advance 4).ahead = rest := by
    rw [Reader.ahead_advance, hahead, ← hwidth, List.drop_left]
  have hsound : (r.advance 4).Sound := hr.advance (by
    rw [hahead, List.length_append]
    omega)
  have hnull : word ≠ -1 := by
    rintro rfl
    rw [show (-1 : Int32).toInt = -1 from rfl] at hn
    omega
  have hnegative : ¬ word < 0 := by
    rw [Int32.lt_iff_toInt_lt, show (0 : Int32).toInt = 0 from rfl]
    omega
  have hpad := le_padTo4 (2 * (n + 1))
  unfold string16
  rw [bind_apply, length_word hr hahead, if_neg hnull, if_neg hnegative, hn, Int.toNat_natCast]
  dsimp only
  rw [bind_apply]
  by_cases hshort : rest.length < padTo4 (2 * (n + 1))
  · rw [if_pos hshort, takePadded_of_lt hsound (by rwa [hbehind]), hbehind]
  · rw [if_neg hshort, takePadded_of_le hsound (by omega) (by rw [hbehind]; omega), hbehind,
      Reader.advance_advance]
    dsimp only
    cases Utf16.decode? (unitsOfBytes (rest.take (2 * n))) <;> rfl

end Read

/-- What is written for a text whose units are known by their bytes. -/
lemma textBytes_of_units {text : List Char} {bs : List UInt8} {n : Nat} (hbs : bs.length = 2 * n)
    (hunits : Utf16.encode text = Read.unitsOfBytes bs) :
    Write.unitCount (String.ofList text) = n ∧
      (textBytes (String.ofList text)).length = 4 + padTo4 (2 * (n + 1)) ∧
      LittleEndian.digits 4 n ++ bs <+: textBytes (String.ofList text) := by
  have hbytes : Write.bytesOfUnits (Utf16.encode text) = bs := by
    rw [hunits, Write.bytesOfUnits_unitsOfBytes ⟨n, hbs⟩]
  have hcount : Write.unitCount (String.ofList text) = n := by
    have hlength := Write.length_bytesOfUnits (Utf16.encode text)
    rw [hbytes, hbs] at hlength
    rw [Write.unitCount, String.toList_ofList]
    omega
  refine ⟨hcount, ?_, ?_⟩
  · rw [textBytes, List.length_append, Write.length_textBody, LittleEndian.length_digits, hcount]
  · rw [textBytes, Write.textBody, hcount, String.toList_ofList, hbytes, ← List.append_assoc]
    exact List.prefix_append _ _

namespace Read

variable {r : Reader}

/-- Reading a text, told by what is ahead. Without a length word it fails, and so it does for a
negative length that is not the null marker. Behind any other length it fails for the end of the
input exactly if the units, the unit that ends them and the padding are not all there, and otherwise
for the units exactly if a surrogate among them stands alone. If it does not fail, then what is
written for the text is as many bytes as were read, and up to the end of the units it is the same
bytes.

**Proof sketch.** Decoding fails only for a surrogate that stands alone, and otherwise gives a text
that has the same units. The bytes of the units are determined by the units, so that they are the
same, and behind them the sizes agree because the numbers of units do. -/
theorem string16_exact (hr : r.Sound) :
    (r.ahead.length < 4 → string16 r = .error (.unexpectedEof 4 r.ahead.length) r) ∧
    ∀ (word : Int32) (rest : List UInt8), r.ahead = int32Bytes word ++ rest →
      (word = -1 → string16 r = .ok none (r.advance 4)) ∧
      (word < 0 → word ≠ -1 → string16 r = .error (.invalidLength word) (r.advance 4)) ∧
      ∀ n : Nat, word.toInt = n →
        (string16 r =
            .error (.unexpectedEof (padTo4 (2 * (n + 1))) rest.length) (r.advance 4) ↔
          rest.length < padTo4 (2 * (n + 1))) ∧
        (string16 r = .error .invalidUtf16 (r.advance (4 + padTo4 (2 * (n + 1)))) ↔
          padTo4 (2 * (n + 1)) ≤ rest.length ∧
            ∃ place, Utf16.UnpairedAt (unitsOfBytes (rest.take (2 * n))) place) ∧
        ((∃ text, string16 r = .ok (some text) (r.advance (4 + padTo4 (2 * (n + 1)))) ∧
            ∃ bs, Write.Emits (Write.string16 text) (.ok bs) ∧
              bs.length = 4 + padTo4 (2 * (n + 1)) ∧
              bs.take (4 + 2 * n) = r.ahead.take (4 + 2 * n)) ↔
          padTo4 (2 * (n + 1)) ≤ rest.length ∧
            ¬ ∃ place, Utf16.UnpairedAt (unitsOfBytes (rest.take (2 * n))) place) := by
  refine ⟨string16_of_short hr, fun word rest hahead => ⟨fun hnull => ?_, fun hneg hnull => ?_,
    fun n hn => ?_⟩⟩
  · unfold string16
    rw [bind_apply, length_word hr hahead, if_pos hnull]
    rfl
  · unfold string16
    rw [bind_apply, length_word hr hahead, if_neg hnull, if_pos hneg]
  have hread := string16_of_length hr hn hahead
  by_cases hshort : rest.length < padTo4 (2 * (n + 1))
  · rw [if_pos hshort] at hread
    rw [hread]
    refine ⟨iff_of_true rfl hshort, iff_of_false (by simp) (by omega), iff_of_false ?_ (by omega)⟩
    rintro ⟨text, h, -⟩
    cases h
  rw [if_neg hshort] at hread
  by_cases hunpaired : ∃ place, Utf16.UnpairedAt (unitsOfBytes (rest.take (2 * n))) place
  · rw [(Utf16.decode?_eq_none_iff _).mpr hunpaired] at hread
    rw [hread]
    refine ⟨iff_of_false (by simp) hshort, iff_of_true rfl ⟨by omega, hunpaired⟩,
      iff_of_false ?_ fun h => h.2 hunpaired⟩
    rintro ⟨text, h, -⟩
    cases h
  · obtain ⟨text, hdecode, hencode⟩ := Utf16.exists_decode? hunpaired
    rw [hdecode] at hread
    rw [hread]
    refine ⟨iff_of_false (by simp) hshort, iff_of_false (by simp) fun h => hunpaired h.2,
      iff_of_true ⟨_, rfl, ?_⟩ ⟨by omega, hunpaired⟩⟩
    have hpad := le_padTo4 (2 * (n + 1))
    have hbs : (rest.take (2 * n)).length = 2 * n := by
      rw [List.length_take]
      omega
    obtain ⟨hcount, hlength, hfront⟩ := textBytes_of_units hbs hencode
    obtain ⟨hmax, hword⟩ := int32Bytes_of_toInt hn
    have hfits : Value.TextFits (String.ofList text) := by
      rw [Value.TextFits, hcount]
      exact hmax
    -- the length word and the units are a beginning of both
    have hsize : (LittleEndian.digits 4 n ++ rest.take (2 * n)).length = 4 + 2 * n := by
      rw [List.length_append, LittleEndian.length_digits, hbs]
    have hahead' : LittleEndian.digits 4 n ++ rest.take (2 * n) <+: r.ahead := by
      rw [hahead, hword, List.prefix_append_right_inj]
      exact List.take_prefix _ _
    refine ⟨_, .string16 hfits, hlength, ?_⟩
    rw [← hsize, ← List.prefix_iff_eq_take.mp hfront, ← List.prefix_iff_eq_take.mp hahead']

end Read

namespace Sample

/-- A text of one character, which is a pair of surrogates. Neither the unit behind it nor the
padding is zero. -/
def strayText : Reader :=
  ⟨#[9, 2, 0, 0, 0, 0x3D, 0xD8, 0, 0xDE, 7, 8, 6, 6, 5], 1, 13⟩

end Sample

/-- The text is read, and written it is the same bytes but for the last four. -/
theorem Read.string16_exact_stray :
    Sample.strayText.Sound ∧
      string16 Sample.strayText = .ok (some "😀") (Sample.strayText.advance 12) ∧
      ∃ bs, Write.Emits (Write.string16 "😀") (.ok bs) ∧ bs.length = 12 ∧
        bs.take 8 = Sample.strayText.ahead.take 8 := by
  have hsound : Sample.strayText.Sound := ⟨by decide, by decide, by decide⟩
  have hread : string16 Sample.strayText = .ok (some "😀") (Sample.strayText.advance 12) := rfl
  have hpaired : ¬ ∃ place, Utf16.UnpairedAt [0xD83D, 0xDE00] place := fun h => by
    cases (Utf16.decode?_eq_none_iff _).mpr h
  obtain ⟨-, -, hlength⟩ := (string16_exact hsound).2 2 _ rfl
  obtain ⟨text, htext, hbytes⟩ := (hlength 2 rfl).2.2.mpr ⟨by decide, hpaired⟩
  cases hread.symm.trans htext
  exact ⟨hsound, hread, hbytes⟩

end TaggedParcel
