import TaggedParcel.Frame.Error
import TaggedParcel.Value.Tag

set_option relaxedAutoImplicit false
set_option autoImplicit false

/-!
# Failures inside a field

## Main definitions

* `FieldError` — why the payload of one field cannot be written or read.
* `FieldError.message` — its wording.
-/

namespace TaggedParcel

/-- Why the payload of one field cannot be written or read. -/
inductive FieldError where
  /-- A payload of fixed width has another size. -/
  | sizeMismatch (expected found : Nat)
  /-- A null where none is possible. -/
  | unexpectedNull
  /-- A value of another kind than asked for. -/
  | typeMismatch (expected found : String)
  /-- An interface that nothing turns into a proxy. -/
  | missingFactory (descriptor : String)
  /-- A crossed limit. -/
  | limit (e : LimitExceeded)
  /-- A bundle that does not start with the bundle magic. -/
  | invalidBundle (found : UInt32)
  /-- A kind of value that cannot be written in this place. -/
  | unsupported (what : String)
  /-- A failing step on the buffer. -/
  | buffer (e : BufferError)
  /-- A word that is no tag. -/
  | unknownTag (e : UnknownTag)
  deriving DecidableEq, Repr

/-- The wording of a failure inside a field. -/
def FieldError.message : FieldError → String
  | .sizeMismatch expected found => s!"expected a {expected}-byte payload, found {found} bytes"
  | .unexpectedNull => "null value for a field that cannot hold one"
  | .typeMismatch expected found => s!"expected {expected}, found {found}"
  | .missingFactory descriptor => s!"no factory registered for interface {descriptor}"
  | .limit e => e.message
  | .invalidBundle found => s!"invalid bundle magic 0x{Hex.upper 8 found.toNat}"
  | .unsupported what => s!"{what} cannot be carried here"
  | .buffer e => e.message
  | .unknownTag e => e.message

/-- A step on the bytes is a step of a field, which may fail for the same reason. -/
instance : MonadLift (Read BufferError) (Read FieldError) where
  monadLift := Read.mapError .buffer

/-- A step on the bytes is a step of a field, which may fail for the same reason. -/
instance : MonadLift (Write BufferError) (Write FieldError) where
  monadLift := Write.mapError .buffer

/-- A limit that is crossed in a field is a failure of the field. -/
instance : MonadLift (Except LimitExceeded) (Read FieldError) where
  monadLift
    | .ok a => pure a
    | .error e => throw (.limit e)

/-- An unknown tag in a field is a failure of the field. -/
instance : MonadLift (Except UnknownTag) (Read FieldError) where
  monadLift
    | .ok a => pure a
    | .error e => throw (.unknownTag e)

/-- What fails for a reason of the field makes reading the field fail. -/
instance : MonadLift (Except FieldError) (Read FieldError) where
  monadLift
    | .ok a => pure a
    | .error e => throw e

/-- The length of a collection. A null reads as `none`, and a length above the limit on
elements is refused. -/
def Read.count (limits : Limits) : Read FieldError (Option Nat) := do
  match ← Read.length with
  | none => return none
  | some count =>
    limits.checkElements count
    return some count

/-- A payload that must not be null. -/
def Read.required {α : Type} (payload : Read BufferError (Option α)) : Read FieldError α := do
  match ← payload with
  | some a => return a
  | none => throw .unexpectedNull

end TaggedParcel
