set_option relaxedAutoImplicit false
set_option autoImplicit false

/-!
# Words and failures of a buffer

Floating-point numbers are carried, never computed with: a value is its bit pattern, so that
every pattern survives, payloads of NaN included. Only comparison looks inside. Whatever is
carried, a step on a buffer fails for one of a few reasons.

## Main definitions

* `Binary32`, `Binary64` — the two interchange formats, as bit patterns.
* `Binary32.numEq`, `Binary64.numEq` — equality as numbers: a NaN equals nothing, and the two
  zeros are equal.
* `BufferError` — why a step on a reader or a writer failed.
* `BufferError.message` — its wording.
-/

namespace TaggedParcel

/-! ## Floating-point words -/

/-- A single-precision number, as its bit pattern. -/
structure Binary32 where
  /-- Sign, exponent and fraction, most significant first. -/
  bits : UInt32
  deriving DecidableEq, Repr, Inhabited

/-- A double-precision number, as its bit pattern. -/
structure Binary64 where
  /-- Sign, exponent and fraction, most significant first. -/
  bits : UInt64
  deriving DecidableEq, Repr, Inhabited

namespace Binary32

/-- The pattern without its sign. -/
def magnitude (x : Binary32) : Nat :=
  x.bits.toNat % 0x80000000

/-- Patterns above infinity stand for no number. -/
def isNaN (x : Binary32) : Bool :=
  0x7F800000 < x.magnitude

/-- Equality as numbers. -/
def numEq (x y : Binary32) : Bool :=
  !x.isNaN && !y.isNaN && (x == y || x.magnitude == 0 && y.magnitude == 0)

end Binary32

namespace Binary64

/-- The pattern without its sign. -/
def magnitude (x : Binary64) : Nat :=
  x.bits.toNat % 0x8000000000000000

/-- Patterns above infinity stand for no number. -/
def isNaN (x : Binary64) : Bool :=
  0x7FF0000000000000 < x.magnitude

/-- Equality as numbers. -/
def numEq (x y : Binary64) : Bool :=
  !x.isNaN && !y.isNaN && (x == y || x.magnitude == 0 && y.magnitude == 0)

end Binary64

/-! ## Failures -/

/-- Why a step on a byte buffer failed. -/
inductive BufferError where
  /-- More bytes were asked for than lie before the limit. -/
  | unexpectedEof (requested available : Nat)
  /-- A new limit lies behind the limit in force. -/
  | limitExceeded (requested limit : Nat)
  /-- A position lies behind the limit. -/
  | positionOutOfBounds (position limit : Nat)
  /-- A length word is negative and not the null marker. -/
  | invalidLength (length : Int32)
  /-- The code units of a text hold an unpaired surrogate. -/
  | invalidUtf16
  /-- A length does not fit its length word. -/
  | lengthOverflow (length : Nat)
  /-- A reserved slot does not lie inside the written bytes. -/
  | invalidSlot (offset size : Nat)
  deriving DecidableEq, Repr

/-- The wording of a buffer failure. -/
def BufferError.message : BufferError → String
  | .unexpectedEof requested available =>
    s!"attempted to read {requested} bytes but only {available} bytes available"
  | .limitExceeded requested limit => s!"limit {requested} exceeds enclosing limit {limit}"
  | .positionOutOfBounds position limit =>
    s!"position {position} is outside the readable range (limit {limit})"
  | .invalidLength length => s!"invalid length prefix {length}"
  | .invalidUtf16 => "string payload is not valid UTF-16"
  | .lengthOverflow length => s!"length {length} does not fit in a 32-bit length prefix"
  | .invalidSlot offset size =>
    s!"backpatch slot at {offset} is outside the written buffer ({size} bytes)"

end TaggedParcel
