import Mathlib.Tactic.Lemma
import TaggedParcel.Text.Encoding

set_option relaxedAutoImplicit false
set_option autoImplicit false

/-!
# Decoding the code units of a text

A text is decoded from its code units. Code units are refused exactly if some surrogate among them
stands alone. All other code units are those of one text, so that decoding loses nothing.

## Main definitions

* `Utf16.UnpairedAt` — places at which a surrogate stands alone.

## Main results

* `Utf16.decode?_encode` — a text is decoded from its code units.
* `Utf16.encode_decode?` — a text that was decoded has the code units that it was decoded from.
* `Utf16.decode?_eq_none_iff` — code units are refused exactly for a surrogate that stands alone.
-/

namespace TaggedParcel.Utf16

/-! ## Decoding what was encoded -/

/-- No character has the number of a surrogate. -/
lemma toNat_lt_or_le (c : Char) : c.toNat < 0xD800 ∨ 0xE000 ≤ c.toNat ∧ c.toNat < 0x110000 := by
  have hvalid : c.toNat < 0xD800 ∨ 0xDFFF < c.toNat ∧ c.toNat < 0x110000 := c.valid
  omega

/-- A unit that is no surrogate is decoded by itself. -/
lemma decodeFrom_unit {u : UInt16} (hhigh : isHigh u = false) (hlow : isLow u = false)
    (rest : List UInt16) (done : List Char) :
    decodeFrom (u :: rest) done = decodeFrom rest (Char.ofNat u.toNat :: done) := by
  cases rest with
  | nil => simp only [decodeFrom, hhigh, hlow, Bool.or_self, Bool.false_eq_true, if_false]
  | cons v rest => simp only [decodeFrom, hhigh, hlow, Bool.false_eq_true, if_false]

/-- The units of a character are decoded to it. -/
lemma decodeFrom_unitsOf (c : Char) (rest : List UInt16) (done : List Char) :
    decodeFrom (unitsOf c ++ rest) done = decodeFrom rest (c :: done) := by
  have hchar := toNat_lt_or_le c
  unfold unitsOf
  by_cases hsmall : c.toNat < 0x10000
  · have hunit : (UInt16.ofNat c.toNat).toNat = c.toNat := UInt16.toNat_ofNat_of_lt' hsmall
    have hhigh : isHigh (UInt16.ofNat c.toNat) = false := by
      rw [isHigh, hunit]
      simp only [Bool.and_eq_false_iff, decide_eq_false_iff_not]
      omega
    have hlow : isLow (UInt16.ofNat c.toNat) = false := by
      rw [isLow, hunit]
      simp only [Bool.and_eq_false_iff, decide_eq_false_iff_not]
      omega
    rw [if_pos hsmall, List.singleton_append, decodeFrom_unit hhigh hlow, hunit, Char.ofNat_toNat]
  · have hu : (UInt16.ofNat (0xD800 + (c.toNat - 0x10000) / 0x400)).toNat =
        0xD800 + (c.toNat - 0x10000) / 0x400 := UInt16.toNat_ofNat_of_lt' (by
      simp only [UInt16.size]
      omega)
    have hv : (UInt16.ofNat (0xDC00 + (c.toNat - 0x10000) % 0x400)).toNat =
        0xDC00 + (c.toNat - 0x10000) % 0x400 := UInt16.toNat_ofNat_of_lt' (by
      simp only [UInt16.size]
      omega)
    have hhigh : isHigh (UInt16.ofNat (0xD800 + (c.toNat - 0x10000) / 0x400)) = true := by
      rw [isHigh, hu]
      simp only [Bool.and_eq_true, decide_eq_true_eq]
      omega
    have hlow : isLow (UInt16.ofNat (0xDC00 + (c.toNat - 0x10000) % 0x400)) = true := by
      rw [isLow, hv]
      simp only [Bool.and_eq_true, decide_eq_true_eq]
      omega
    have hpair : pairChar (UInt16.ofNat (0xD800 + (c.toNat - 0x10000) / 0x400))
        (UInt16.ofNat (0xDC00 + (c.toNat - 0x10000) % 0x400)) = c := by
      rw [pairChar, hu, hv]
      have hnumber : 0x10000 + (0xD800 + (c.toNat - 0x10000) / 0x400 - 0xD800) * 0x400 +
          (0xDC00 + (c.toNat - 0x10000) % 0x400 - 0xDC00) = c.toNat := by
        omega
      rw [hnumber, Char.ofNat_toNat]
    rw [if_neg hsmall]
    simp only [List.cons_append, List.nil_append, decodeFrom, hhigh, hlow, if_true, hpair]

/-- The units of a text are decoded to it, behind what was decoded before. -/
lemma decodeFrom_encode (text done : List Char) :
    decodeFrom (encode text) done = some (done.reverse ++ text) := by
  induction text generalizing done with
  | nil => simp [encode, decodeFrom]
  | cons c rest ih =>
    have hencode : encode (c :: rest) = unitsOf c ++ encode rest := rfl
    rw [hencode, decodeFrom_unitsOf, ih, List.reverse_cons, List.append_assoc,
      List.singleton_append]

/-- A text is decoded from its code units. -/
theorem decode?_encode (text : List Char) : decode? (encode text) = some text :=
  decodeFrom_encode text []

variable {u v : UInt16} {units rest : List UInt16}

/-- A surrogate is either high or low. -/
lemma isHigh_of_isLow (h : isLow u = true) : isHigh u = false := by
  simp only [isLow, isHigh, Bool.and_eq_true, decide_eq_true_eq, Bool.and_eq_false_iff,
    decide_eq_false_iff_not] at h ⊢
  omega

/-! ## Encoding what was decoded -/

/-- A unit that is no surrogate is the only unit of its character. -/
lemma unitsOf_unit (hhigh : isHigh u = false) (hlow : isLow u = false) :
    unitsOf (Char.ofNat u.toNat) = [u] := by
  have hlt : u.toNat < 0x10000 := u.toNat_lt
  simp only [isHigh, isLow, Bool.and_eq_false_iff, decide_eq_false_iff_not] at hhigh hlow
  have hvalid : u.toNat.isValidChar := by
    unfold Nat.isValidChar
    omega
  have hchar : (Char.ofNat u.toNat).toNat = u.toNat := by
    rw [Char.ofNat, dif_pos hvalid]
    rfl
  rw [unitsOf, hchar, if_pos hlt, UInt16.ofNat_toNat]

/-- A pair of surrogates is the pair of units of its character. -/
lemma unitsOf_pairChar (hhigh : isHigh u = true) (hlow : isLow v = true) :
    unitsOf (pairChar u v) = [u, v] := by
  simp only [isHigh, isLow, Bool.and_eq_true, decide_eq_true_eq] at hhigh hlow
  have hvalid : (0x10000 + (u.toNat - 0xD800) * 0x400 + (v.toNat - 0xDC00)).isValidChar := by
    unfold Nat.isValidChar
    omega
  have hchar : (pairChar u v).toNat =
      0x10000 + (u.toNat - 0xD800) * 0x400 + (v.toNat - 0xDC00) := by
    rw [pairChar, Char.ofNat, dif_pos hvalid]
    rfl
  have hu : 0xD800 + ((pairChar u v).toNat - 0x10000) / 0x400 = u.toNat := by omega
  have hv : 0xDC00 + ((pairChar u v).toNat - 0x10000) % 0x400 = v.toNat := by omega
  rw [unitsOf, if_neg (by omega), hu, hv, UInt16.ofNat_toNat, UInt16.ofNat_toNat]

/-- What was decoded has the units that it was decoded from, behind those of what was decoded
before. -/
lemma encode_of_decodeFrom {done text : List Char} (h : decodeFrom units done = some text) :
    encode text = encode done.reverse ++ units := by
  have hsnoc (c : Char) (done : List Char) :
      encode (c :: done).reverse = encode done.reverse ++ unitsOf c := by
    simp [encode]
  induction units, done using decodeFrom.induct with
  | case1 done =>
    cases h
    rw [List.append_nil]
  | case2 done u hsurrogate =>
    rw [decodeFrom, if_pos hsurrogate] at h
    cases h
  | case3 done u hplain =>
    rw [decodeFrom, if_neg hplain] at h
    cases h
    rw [Bool.or_eq_true, not_or, Bool.not_eq_true, Bool.not_eq_true] at hplain
    rw [hsnoc, unitsOf_unit hplain.1 hplain.2]
  | case4 done u v rest hhigh hlow ih =>
    rw [decodeFrom, if_pos hhigh, if_pos hlow] at h
    rw [ih h, hsnoc, unitsOf_pairChar hhigh hlow, List.append_assoc]
    rfl
  | case5 done u v rest hhigh hlow =>
    rw [decodeFrom, if_pos hhigh, if_neg hlow] at h
    cases h
  | case6 done u v rest hhigh hlow =>
    rw [decodeFrom, if_neg hhigh, if_pos hlow] at h
    cases h
  | case7 done u v rest hhigh hlow ih =>
    rw [decodeFrom, if_neg hhigh, if_neg hlow] at h
    rw [Bool.not_eq_true] at hhigh hlow
    rw [ih h, hsnoc, unitsOf_unit hhigh hlow, List.append_assoc, List.singleton_append]

/-- A text that was decoded has the code units that it was decoded from. -/
theorem encode_decode? {text : List Char} (h : decode? units = some text) : encode text = units :=
  encode_of_decodeFrom h

/-! ## What is refused -/

/-- At a place among code units stands a surrogate that is not part of a pair. -/
inductive UnpairedAt (units : List UInt16) (place : Nat) : Prop where
  /-- A high surrogate with no low one behind it. -/
  | high {u : UInt16} (hunit : units[place]? = some u) (hhigh : isHigh u = true)
    (hbehind : ∀ v, units[place + 1]? = some v → isLow v = false)
  /-- A low surrogate with no high one before it. -/
  | low {u : UInt16} (hunit : units[place]? = some u) (hlow : isLow u = true)
    (hbefore : ∀ before v, before + 1 = place → units[before]? = some v → isHigh v = false)

/-- Where there are no units, none stands alone. -/
lemma not_unpairedAt_nil (place : Nat) : ¬ UnpairedAt [] place := by
  rintro (⟨hunit, -, -⟩ | ⟨hunit, -, -⟩) <;> cases hunit

/-- What stands in front of units does not matter for whether a surrogate stands alone there, unless
it opens a pair with the first of them. -/
lemma unpairedAt_succ_iff {place : Nat} (h : place = 0 → isHigh u = false) :
    UnpairedAt (u :: rest) (place + 1) ↔ UnpairedAt rest place := by
  constructor
  · rintro (⟨hunit, hhigh, hbehind⟩ | ⟨hunit, hlow, hbefore⟩)
    · exact .high hunit hhigh hbehind
    · exact .low hunit hlow fun before v hplace hv => hbefore (before + 1) v (by omega) hv
  · rintro (⟨hunit, hhigh, hbehind⟩ | ⟨hunit, hlow, hbefore⟩)
    · exact .high hunit hhigh hbehind
    · refine .low hunit hlow fun before v hplace hv => ?_
      cases before with
      | zero =>
        cases hv
        exact h (by omega)
      | succ before => exact hbefore before v (by omega) hv

/-- A unit that is no surrogate can be left out. -/
lemma exists_unpairedAt_unit (hhigh : isHigh u = false) (hlow : isLow u = false) :
    (∃ place, UnpairedAt (u :: rest) place) ↔ ∃ place, UnpairedAt rest place := by
  constructor
  · rintro ⟨place, hplace⟩
    cases place with
    | zero =>
      rcases hplace with ⟨hunit, hu, -⟩ | ⟨hunit, hu, -⟩
      · cases hunit
        rw [hhigh] at hu
        cases hu
      · cases hunit
        rw [hlow] at hu
        cases hu
    | succ place => exact ⟨place, (unpairedAt_succ_iff fun _ => hhigh).mp hplace⟩
  · rintro ⟨place, hplace⟩
    exact ⟨place + 1, (unpairedAt_succ_iff fun _ => hhigh).mpr hplace⟩

/-- A pair of surrogates can be left out. -/
lemma exists_unpairedAt_pair (hhigh : isHigh u = true) (hlow : isLow v = true) :
    (∃ place, UnpairedAt (u :: v :: rest) place) ↔ ∃ place, UnpairedAt rest place := by
  have hshift (place : Nat) :
      UnpairedAt (u :: v :: rest) (place + 2) ↔ UnpairedAt rest place :=
    (unpairedAt_succ_iff fun hzero => absurd hzero (Nat.succ_ne_zero place)).trans
      (unpairedAt_succ_iff fun _ => isHigh_of_isLow hlow)
  constructor
  · rintro ⟨place, hplace⟩
    match place with
    | 0 =>
      rcases hplace with ⟨-, -, hbehind⟩ | ⟨hunit, hu, -⟩
      · rw [hbehind v rfl] at hlow
        cases hlow
      · cases hunit
        rw [isHigh_of_isLow hu] at hhigh
        cases hhigh
    | 1 =>
      rcases hplace with ⟨hunit, hv, -⟩ | ⟨-, -, hbefore⟩
      · cases hunit
        rw [isHigh_of_isLow hlow] at hv
        cases hv
      · rw [hbefore 0 u rfl rfl] at hhigh
        cases hhigh
    | place + 2 => exact ⟨place, (hshift place).mp hplace⟩
  · rintro ⟨place, hplace⟩
    exact ⟨place + 2, (hshift place).mpr hplace⟩

/-- Units are refused exactly for a surrogate that stands alone, whatever was decoded before. -/
lemma decodeFrom_eq_none_iff (units : List UInt16) (done : List Char) :
    decodeFrom units done = none ↔ ∃ place, UnpairedAt units place := by
  induction units, done using decodeFrom.induct with
  | case1 done =>
    rw [decodeFrom]
    exact iff_of_false (Option.some_ne_none _) (not_exists.mpr not_unpairedAt_nil)
  | case2 done u hsurrogate =>
    rw [decodeFrom, if_pos hsurrogate]
    refine ⟨fun _ => ⟨0, ?_⟩, fun _ => rfl⟩
    rcases Bool.or_eq_true _ _ ▸ hsurrogate with hhigh | hlow
    · refine .high rfl hhigh fun v hv => ?_
      cases hv
    · exact .low rfl hlow fun before v hplace _ => absurd hplace (Nat.succ_ne_zero before)
  | case3 done u hplain =>
    rw [decodeFrom, if_neg hplain]
    rw [Bool.or_eq_true, not_or, Bool.not_eq_true, Bool.not_eq_true] at hplain
    rw [exists_unpairedAt_unit hplain.1 hplain.2]
    exact iff_of_false (Option.some_ne_none _) (not_exists.mpr not_unpairedAt_nil)
  | case4 done u v rest hhigh hlow ih =>
    rw [decodeFrom, if_pos hhigh, if_pos hlow, ih, exists_unpairedAt_pair hhigh hlow]
  | case5 done u v rest hhigh hlow =>
    rw [decodeFrom, if_pos hhigh, if_neg hlow]
    rw [Bool.not_eq_true] at hlow
    refine ⟨fun _ => ⟨0, .high rfl hhigh fun w hw => ?_⟩, fun _ => rfl⟩
    cases hw
    exact hlow
  | case6 done u v rest hhigh hlow =>
    rw [decodeFrom, if_neg hhigh, if_pos hlow]
    exact ⟨fun _ => ⟨0, .low rfl hlow fun before v hplace _ =>
      absurd hplace (Nat.succ_ne_zero before)⟩, fun _ => rfl⟩
  | case7 done u v rest hhigh hlow ih =>
    rw [decodeFrom, if_neg hhigh, if_neg hlow, ih]
    rw [Bool.not_eq_true] at hhigh hlow
    rw [exists_unpairedAt_unit hhigh hlow]

/-- Code units are refused exactly if there is a surrogate among them that is not part of a
pair. -/
theorem decode?_eq_none_iff (units : List UInt16) :
    decode? units = none ↔ ∃ place, UnpairedAt units place :=
  decodeFrom_eq_none_iff units []

/-- Where no surrogate stands alone, the code units are those of a text. -/
lemma exists_decode? (h : ¬ ∃ place, UnpairedAt units place) :
    ∃ text, decode? units = some text ∧ encode text = units := by
  cases hdecode : decode? units with
  | none => exact absurd ((decode?_eq_none_iff units).mp hdecode) h
  | some text => exact ⟨text, rfl, encode_decode? hdecode⟩

end TaggedParcel.Utf16
