set_option relaxedAutoImplicit false
set_option autoImplicit false

/-!
# Texts as units and digits

Text travels as UTF-16: a character below `0x10000` is one unit, any other is a pair of
surrogates. Decoding refuses a surrogate that is not part of a pair, high before low. In messages
and exports, words appear as hexadecimal numbers of a fixed width.

## Main definitions

* `Utf16.encode` — the code units of a list of characters.
* `Utf16.decode?` — the characters of a list of code units, if every surrogate is paired.
* `Hex.digit` — one digit, in either case.
* `Hex.lower`, `Hex.upper` — a number in a fixed number of digits.
-/

namespace TaggedParcel.Utf16

/-- The one or two code units of a character. -/
def unitsOf (c : Char) : List UInt16 :=
  if c.toNat < 0x10000 then
    [UInt16.ofNat c.toNat]
  else
    [UInt16.ofNat (0xD800 + (c.toNat - 0x10000) / 0x400),
      UInt16.ofNat (0xDC00 + (c.toNat - 0x10000) % 0x400)]

/-- The code units of a text. -/
def encode (text : List Char) : List UInt16 :=
  text.flatMap unitsOf

/-- A unit that opens a surrogate pair. -/
def isHigh (u : UInt16) : Bool :=
  0xD800 ≤ u.toNat && u.toNat < 0xDC00

/-- A unit that closes a surrogate pair. -/
def isLow (u : UInt16) : Bool :=
  0xDC00 ≤ u.toNat && u.toNat < 0xE000

/-- The character that a surrogate pair stands for. -/
def pairChar (high low : UInt16) : Char :=
  Char.ofNat (0x10000 + (high.toNat - 0xD800) * 0x400 + (low.toNat - 0xDC00))

/-- Decodes units behind the characters decoded so far, which come last first. -/
def decodeFrom : List UInt16 → List Char → Option (List Char)
  | [], done => some done.reverse
  | [u], done =>
    if isHigh u || isLow u then none else some (Char.ofNat u.toNat :: done).reverse
  | u :: v :: rest, done =>
    if isHigh u then
      if isLow v then decodeFrom rest (pairChar u v :: done) else none
    else if isLow u then
      none
    else
      decodeFrom (v :: rest) (Char.ofNat u.toNat :: done)

/-- The characters of the units, or `none` if a surrogate stands unpaired. -/
def decode? (units : List UInt16) : Option (List Char) :=
  decodeFrom units []

end TaggedParcel.Utf16

namespace TaggedParcel.Hex

/-- The digit for a number below sixteen, letters counting up from `ten`. -/
def digit (ten : Char) (n : Nat) : Char :=
  if n < 10 then Char.ofNat ('0'.toNat + n) else Char.ofNat (ten.toNat + (n - 10))

/-- The lowest `width` digits of a number, most significant first, in front of `rest`. -/
def digits (ten : Char) : (width : Nat) → (n : Nat) → (rest : List Char) → List Char
  | 0, _, rest => rest
  | width + 1, n, rest => digits ten width (n / 16) (digit ten (n % 16) :: rest)

/-- A number in `width` digits, with letters in lower case. -/
def lower (width n : Nat) : String :=
  String.ofList (digits 'a' width n [])

/-- A number in `width` digits, with letters in upper case. -/
def upper (width n : Nat) : String :=
  String.ofList (digits 'A' width n [])

end TaggedParcel.Hex
