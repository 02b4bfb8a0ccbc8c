import TaggedParcel.Buffer.Reader
import TaggedParcel.Buffer.Writer

set_option relaxedAutoImplicit false
set_option autoImplicit false

/-!
# Limits and failures of framing

Input may come from anywhere, so reading is bounded: in how deep objects and values nest, in how
many elements a collection counts, and in how many bytes an object has. Bytes within the bounds
may still be no frame.

## Main definitions

* `Limits` — the three bounds, with the presets `Limits.standard`, `Limits.small` and
  `Limits.unlimited`.
* `LimitExceeded` — a bound that was crossed, and its wording.
* `Corruption` — bytes that cannot be an object frame.
* `FrameError` — why a step on frames failed.
* `FrameError.message`, `Corruption.message` — their wording.
-/

namespace TaggedParcel

/-! ## Limits -/

/-- The bounds that reading observes. -/
structure Limits where
  /-- How deep objects, and values inside a field, may nest. -/
  maxDepth : Nat
  /-- How many elements a collection may count. -/
  maxElements : Nat
  /-- How many bytes the fields of an object may take. -/
  maxObjectBytes : Nat
  deriving DecidableEq, Repr

namespace Limits

/-- The bounds in use where none are given. -/
def standard : Limits :=
  ⟨32, 65536, 1048576⟩

/-- Bounds small enough to be reached by hand-written input. -/
def small : Limits :=
  ⟨8, 256, 4096⟩

/-- Bounds that no input reaches. -/
def unlimited : Limits :=
  ⟨UInt64.size - 1, UInt64.size - 1, UInt64.size - 1⟩

end Limits

/-- What a limit counts. -/
inductive LimitKind where
  | depth
  | elements
  | objectBytes
  deriving DecidableEq, Repr

/-- The name of a limit in messages. -/
def LimitKind.name : LimitKind → String
  | .depth => "nesting depth"
  | .elements => "element count"
  | .objectBytes => "object bytes"

/-- A limit that was crossed. -/
structure LimitExceeded where
  /-- What was counted. -/
  kind : LimitKind
  /-- The bound. -/
  limit : Nat
  /-- The count that crossed it. -/
  actual : Nat
  deriving DecidableEq, Repr

namespace LimitExceeded

/-- The wording of a crossed limit. -/
def message (e : LimitExceeded) : String :=
  s!"{e.kind.name} limit exceeded: {e.actual} > {e.limit}"

/-- One step deeper than the depth limit. -/
def depth (limits : Limits) : LimitExceeded :=
  ⟨.depth, limits.maxDepth, limits.maxDepth + 1⟩

end LimitExceeded

/-- Counts above the limit on elements are refused. -/
def Limits.checkElements (limits : Limits) (count : Nat) : Except LimitExceeded Unit :=
  if count > limits.maxElements then
    .error ⟨.elements, limits.maxElements, count⟩
  else
    .ok ()

/-! ## Failures -/

/-- Bytes that cannot be an object frame. -/
inductive Corruption where
  /-- A declared extent ends behind the limit in force. -/
  | overread (stop limit : Nat)
  /-- The word where an object should start is not an object header. -/
  | invalidObjectHeader (found : UInt32)
  deriving DecidableEq, Repr

/-- The wording of a corruption. -/
def Corruption.message : Corruption → String
  | .overread stop limit =>
    s!"declared extent ends at {stop}, past the enclosing limit {limit}"
  | .invalidObjectHeader found =>
    s!"expected object header, found 0x{Hex.upper 8 found.toNat}"

/-- Why a step on frames failed. -/
inductive FrameError where
  | buffer (e : BufferError)
  | corruption (c : Corruption)
  | limit (e : LimitExceeded)
  deriving DecidableEq, Repr

/-- The wording of a frame failure. -/
def FrameError.message : FrameError → String
  | .buffer e => e.message
  | .corruption c => c.message
  | .limit e => e.message

/-- A step on the bytes is a step on frames, which may fail for the same reason. -/
instance : MonadLift (Read BufferError) (Read FrameError) where
  monadLift := Read.mapError .buffer

/-- A step on the bytes is a step on frames, which may fail for the same reason. -/
instance : MonadLift (Write BufferError) (Write FrameError) where
  monadLift := Write.mapError .buffer

end TaggedParcel
