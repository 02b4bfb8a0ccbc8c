import TaggedParcel.Shape.Resolve
import TaggedParcel.Value.Error

set_option relaxedAutoImplicit false
set_option autoImplicit false

/-!
# What happened while an object was written or read

A fault in one field does not spoil the others: it is reported, and the field is left out. Only
some failures end the whole.

## Main definitions

* `Diagnostic`, `Report` — what is worth telling about a success.
* `CodecError` — why writing or reading an object failed.
* `CodecError.isFatal` — whether a failure ends the objects around it as well.
-/

namespace TaggedParcel

/-- Something worth telling about an object that was written or read. -/
inductive Diagnostic where
  /-- A field that the type does not have was passed over. -/
  | unknownField (type : String) (id : UInt16) (size : Nat)
  /-- A field that could not be read was passed over. -/
  | fieldSkipped (type field : String) (id : UInt16) (reason : String)
  /-- A field that could not be written was left out. -/
  | fieldOmitted (type field : String) (id : UInt16) (reason : String)
  /-- An integer is above the version gate of its field. -/
  | versionGate (type field : String) (gate found : Int64)
  deriving DecidableEq, Repr

/-- The wording of a diagnostic. -/
def Diagnostic.message : Diagnostic → String
  | .unknownField type id size => s!"{type}: skipped unknown field {id} ({size} bytes)"
  | .fieldSkipped type field id reason => s!"{type}.{field} (id {id}) skipped: {reason}"
  | .fieldOmitted type field id reason => s!"{type}.{field} (id {id}) omitted: {reason}"
  | .versionGate type field gate found =>
    s!"{type}.{field} holds {found}, newer than supported version {gate}"

/-- Everything worth telling, in the order in which it happened. -/
abbrev Report : Type :=
  List Diagnostic

/-- The ids of the fields that were passed over as unknown. -/
def Report.unknownFields (report : Report) : List UInt16 :=
  report.filterMap fun
    | .unknownField _ id _ => some id
    | _ => none

/-- Why writing or reading an object failed. -/
inductive CodecError where
  /-- The type has no usable description. -/
  | schema (e : SchemaError)
  /-- The bytes are no object frame. -/
  | corruption (c : Corruption)
  /-- A payload cannot be written or read. -/
  | field (e : FieldError)
  /-- A field that must have a value has none. -/
  | missingRequiredField (type field : String)
  /-- Objects nest too deep. -/
  | depthExceeded (depth limit : Nat)
  deriving DecidableEq, Repr

namespace CodecError

/-- The wording of a failure. -/
def message : CodecError → String
  | .schema e => e.message
  | .corruption c => "corrupt parcel: " ++ c.message
  | .field e => "field error: " ++ e.message
  | .missingRequiredField type name => s!"{type}.{name} is not nullable but has no value"
  | .depthExceeded depth limit => s!"nesting depth {depth} exceeds limit {limit}"

/-- Whether a failure ends the objects around it as well. All others stay inside the field in
which they arose. -/
def isFatal : CodecError → Bool
  | .schema _ | .missingRequiredField _ _ | .depthExceeded _ _ => true
  | .corruption _ | .field _ => false

/-- A failing step on frames, as the failure of an object. -/
def ofFrame : FrameError → CodecError
  | .buffer e => .field (.buffer e)
  | .corruption c => .corruption c
  | .limit e => .field (.limit e)

end CodecError

end TaggedParcel
