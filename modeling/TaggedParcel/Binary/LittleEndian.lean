set_option relaxedAutoImplicit false
set_option autoImplicit false

/-!
# Little-endian digits

Words of every width are written as base-256 digits, least significant first. One pair of
functions serves all widths; signed words and floating-point words go through their unsigned
bit patterns.

## Main definitions

* `LittleEndian.digits` — the digits of a number, at a given width.
* `LittleEndian.value` — the number that a list of digits stands for.
* `padTo4` — the padded length of a payload.

## Main results

* `LittleEndian.value_digits` — reading what was written gives the number modulo the width.
* `LittleEndian.digits_value` — writing what was read gives the digits back.
-/

namespace TaggedParcel

namespace LittleEndian

/-- The `width` lowest base-256 digits of `n`, least significant first. -/
def digits : (width : Nat) → (n : Nat) → List UInt8
  | 0, _ => []
  | width + 1, n => UInt8.ofNat n :: digits width (n / 256)

/-- The number that base-256 digits stand for, least significant first. -/
def value : List UInt8 → Nat
  | [] => 0
  | b :: bs => b.toNat + 256 * value bs

/-- How many numbers there are of `width` base-256 digits. -/
def modulus : (width : Nat) → Nat
  | 0 => 1
  | width + 1 => 256 * modulus width

/-- There are as many digits as are asked for. -/
@[simp] theorem length_digits (width n : Nat) : (digits width n).length = width := by
  induction width generalizing n with
  | zero => rfl
  | succ width ih => simp [digits, ih]

/-- The value of some bytes is less than the number of their values. -/
theorem value_lt (bs : List UInt8) : value bs < modulus bs.length := by
  induction bs with
  | nil => simp [value, modulus]
  | cons b bs ih =>
    have hb := b.toNat_lt
    simp only [value, List.length_cons, modulus]
    omega

/-- Digits have the value of the number that they were made of, as far as they are enough. -/
theorem value_digits (width n : Nat) : value (digits width n) = n % modulus width := by
  induction width generalizing n with
  | zero => simp [digits, value, modulus, Nat.mod_one]
  | succ width ih =>
    have hsplit : n % (256 * modulus width) = n % 256 + 256 * (n / 256 % modulus width) :=
      Nat.mod_mul
    have hbyte : (UInt8.ofNat n).toNat = n % 256 := UInt8.toNat_ofNat'
    simp only [digits, value, modulus, ih, hbyte, hsplit]

/-- Bytes are the digits of their value. -/
theorem digits_value (bs : List UInt8) : digits bs.length (value bs) = bs := by
  induction bs with
  | nil => rfl
  | cons b bs ih =>
    have hb := b.toNat_lt
    have hdiv : (b.toNat + 256 * value bs) / 256 = value bs := by omega
    simp only [List.length_cons, digits, value, hdiv, ih, List.cons.injEq, and_true]
    apply UInt8.toNat_inj.mp
    simp only [UInt8.toNat_ofNat']
    omega

end LittleEndian

/-- The least multiple of four that is at least `n`: payloads are padded to whole words. -/
def padTo4 (n : Nat) : Nat :=
  (n + 3) / 4 * 4

/-- Padding does not take anything away. -/
theorem le_padTo4 (n : Nat) : n ≤ padTo4 n := by
  unfold padTo4
  omega

end TaggedParcel
