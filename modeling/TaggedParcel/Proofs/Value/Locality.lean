import TaggedParcel.Proofs.Buffer.Locality
import TaggedParcel.Schema.Element

set_option relaxedAutoImplicit false
set_option autoImplicit false

/-!
# Reading values is local

Every payload of a field that holds no objects is read by a step that is put together from takes
of bytes, and so is local: generic values and bundles to any depth, single values of every kind,
lists and maps.

## Main results

* `Read.Assembled.value`, `Read.Assembled.bundle` — generic values and bundles.
* `Read.Assembled.plainKind`, `Read.Assembled.valueKind` — single values.
* `Read.Assembled.list`, `Read.Assembled.map` — lists and maps.
-/

namespace TaggedParcel.Read.Assembled

variable {α : Type}

/-- A step of the buffer layer inside a payload. -/
lemma lift {step : Read BufferError α} (h : Assembled step) :
    Assembled (liftM step : Read FieldError α) :=
  mapError FieldError.buffer h

/-- Checking a count is assembled. -/
lemma checkElements (limits : Limits) (count : Nat) :
    Assembled (liftM (limits.checkElements count) : Read FieldError Unit) := by
  unfold Limits.checkElements
  split
  · exact throw _
  · exact pure ()

/-- Telling a tag from its code is assembled. -/
lemma parseTag (code : Int32) :
    Assembled (liftM (ValueTag.parse code) : Read FieldError ValueTag) := by
  unfold ValueTag.parse
  split
  · exact pure _
  · exact throw _

/-- Passing on a result is assembled. -/
lemma liftResult (result : Except FieldError α) : Assembled (liftM result : Read FieldError α) := by
  cases result with
  | ok a => exact pure a
  | error e => exact throw e

/-! ## Counted payloads -/

/-- A payload that must not be null is assembled if the payload is. -/
lemma required {payload : Read BufferError (Option α)} (h : Assembled payload) :
    Assembled (required payload) := by
  refine bind (lift h) fun a => ?_
  cases a with
  | none => exact throw _
  | some a => exact pure a

/-- A count is assembled. -/
lemma count (limits : Limits) : Assembled (count limits) := by
  refine bind (lift length) fun n => ?_
  cases n with
  | none => exact pure none
  | some n => exact bind (checkElements limits n) fun _ => pure _

/-- A count that may be null is assembled. -/
lemma countOrZero (limits : Limits) : Assembled (countOrZero limits) :=
  bind (lift length) fun _ => bind (checkElements limits _) fun _ => pure _

/-- A counted array is assembled if its items are. -/
lemma arrayOf (limits : Limits) {item : Read FieldError α} (h : Assembled item) :
    Assembled (arrayOf limits item) := by
  refine bind (count limits) fun n => ?_
  cases n with
  | none => exact pure none
  | some n => exact bind (times h n) fun _ => pure _

/-- A counted array of texts is assembled. -/
lemma stringArray (limits : Limits) : Assembled (stringArray limits) :=
  arrayOf limits (required string16)

/-- A counted array of 32-bit words is assembled. -/
lemma intArray (limits : Limits) : Assembled (intArray limits) :=
  arrayOf limits (lift i32)

/-- A counted array of 64-bit words is assembled. -/
lemma longArray (limits : Limits) : Assembled (longArray limits) :=
  arrayOf limits (lift i64)

/-! ## Generic values -/

end Assembled

/-- The entries of a bundle behind its magic, with `item` for the value of each. -/
def bundleEntries (limits : Limits) (item : Read FieldError Value) :
    Read FieldError (List (String × Value)) := do
  let count ← countOrZero limits
  times count do
    let key ← required string16
    let value ← item
    return (key, value)

/-- A bundle is a length, a magic, and entries framed by the length. -/
lemma bundleWith_eq (limits : Limits) (item : Read FieldError Value) :
    bundleWith limits item = do
      match ← (liftM length : Read FieldError (Option Nat)) with
      | none => pure none
      | some size =>
        let magic ← (liftM u32 : Read FieldError UInt32)
        if magic ≠ bundleMagic then
          throw (.invalidBundle magic)
        else
          let entries ← framed .buffer size (bundleEntries limits item)
          return some (Bundle.ofList entries) := by
  unfold bundleWith
  congr 1
  funext size
  cases size with
  | none => rfl
  | some size =>
    dsimp only
    congr 1
    funext magic
    split
    · rfl
    · simp only [framed, bind_assoc, pure_bind]
      rfl

namespace Assembled

/-- The entries of a bundle are assembled if the values in them are. -/
lemma bundleEntries (limits : Limits) {item : Read FieldError Value} (h : Assembled item) :
    Assembled (bundleEntries limits item) :=
  bind (countOrZero limits) fun _ =>
    times (bind (required string16) fun _ => bind h fun _ => pure _) _

/-- A bundle is assembled if the values in it are. -/
lemma bundleWith (limits : Limits) {item : Read FieldError Value} (h : Assembled item) :
    Assembled (bundleWith limits item) := by
  rw [bundleWith_eq]
  refine bind (lift length) fun size => ?_
  cases size with
  | none => exact pure none
  | some size =>
    refine bind (lift u32) fun magic => ?_
    split
    · exact throw _
    · exact bind (framed .buffer size (bundleEntries limits h)) fun _ => pure _

/-- A value is read by an assembled step, if the values in it are. -/
lemma readWith (limits : Limits) {inner : Option (Read FieldError Value)}
    (h : ∀ item ∈ inner, Assembled item) : Assembled (Value.readWith limits inner) := by
  -- a container first asks for the step that reads the values in it
  have hdeeper : ∀ next : Read FieldError Value → Read FieldError Value,
      (∀ item, Assembled item → Assembled (next item)) →
        Assembled (Read.deeper limits inner >>= next) := by
    intro next hnext
    cases inner with
    | none => exact throw (FieldError.limit (.depth limits))
    | some item => exact hnext item (h item rfl)
  refine bind (lift i32) fun code => bind (parseTag code) fun tag => ?_
  cases tag with
  | null => exact pure _
  | string => exact bind (required string16) fun _ => pure _
  | int => exact bind (lift i32) fun _ => pure _
  | map =>
    refine hdeeper _ fun item hitem => bind (countOrZero limits) fun _ => ?_
    exact bind (times (bind hitem fun _ => bind hitem fun _ => pure _) _) fun _ => pure _
  | bundle => exact hdeeper _ fun item hitem => bind (bundleWith limits hitem) fun _ => pure _
  | parcelable => exact throw _
  | short => exact bind (lift i32) fun _ => pure _
  | long => exact bind (lift i64) fun _ => pure _
  | float => exact bind (lift float) fun _ => pure _
  | double => exact bind (lift double) fun _ => pure _
  | bool => exact bind (lift bool) fun _ => pure _
  | list =>
    refine hdeeper _ fun item hitem => bind (countOrZero limits) fun _ => ?_
    exact bind (times hitem _) fun _ => pure _
  | byteArray => exact bind (lift byteArray) fun _ => pure _
  | stringArray => exact bind (stringArray limits) fun _ => pure _
  | binder => exact bind (lift binder) fun _ => pure _
  | intArray => exact bind (intArray limits) fun _ => pure _
  | longArray => exact bind (longArray limits) fun _ => pure _
  | byte => exact bind (lift i32) fun _ => pure _

/-- A value is assembled, whatever levels of nesting are left. -/
theorem readWithin (limits : Limits) (levels : Nat) :
    Assembled (Value.readWithin limits levels) := by
  induction levels with
  | zero => exact readWith limits (by simp)
  | succ levels ih => exact readWith limits (by simpa using ih)

/-- A value is assembled at any level of nesting. -/
theorem value (limits : Limits) (level : Nat) : Assembled (Value.read limits level) :=
  readWithin limits _

/-- A bundle is assembled at any level of nesting. -/
theorem bundle (limits : Limits) (level : Nat) : Assembled (Bundle.read limits level) :=
  bundleWith limits (value limits level)

/-! ## Single values -/

/-- The payload of a plain kind is assembled. -/
theorem plainKind (limits : Limits) (kind : PlainKind) : Assembled (kind.read limits) := by
  cases kind with
  | bool => exact bind (lift bool) fun _ => pure _
  | byte => exact bind (lift i32) fun _ => pure _
  | short => exact bind (lift i32) fun _ => pure _
  | int => exact bind (lift i32) fun _ => pure _
  | long => exact bind (lift i64) fun _ => pure _
  | float => exact bind (lift float) fun _ => pure _
  | double => exact bind (lift double) fun _ => pure _
  | string => exact bind (lift string16) fun _ => pure _
  | byteArray => exact bind (lift byteArray) fun _ => pure _
  | byteArrayArray => exact bind (arrayOf limits (required byteArray)) fun _ => pure _
  | intArray => exact bind (intArray limits) fun _ => pure _
  | floatArray => exact bind (arrayOf limits (lift float)) fun _ => pure _
  | stringArray => exact bind (stringArray limits) fun _ => pure _
  | bundle => exact bind (bundle limits 0) fun _ => pure _
  | binder => exact bind (lift binder) fun _ => pure _

/-- The payload of a single value is assembled. -/
theorem valueKind (type : String) (limits : Limits) (kind : ValueKind) :
    Assembled (kind.read type limits) := by
  cases kind with
  | plain kind => exact plainKind limits kind
  | refined kind =>
    refine bind (plainKind limits kind.carrier) fun v => ?_
    cases v with
    | none => exact pure none
    | some v => exact liftResult _
  | uncarried shape => exact throw _

/-! ## Lists and maps -/

/-- The payload of a list without tags is assembled. -/
lemma compact (layout : Semantic) : Assembled (compact layout) := by
  unfold Read.compact
  split
  · exact bind (lift i32) fun _ => pure _
  · exact bind (lift bool) fun _ => pure _
  · exact bind (lift i64) fun _ => pure _
  · exact bind (lift float) fun _ => pure _
  · exact bind (lift double) fun _ => pure _
  · exact bind (required string16) fun _ => pure _
  · exact throw _

/-- The payload of a list is assembled. -/
theorem list (kind : ElementKind) (layout : Semantic) (limits : Limits) :
    Assembled (list kind layout limits) := by
  refine bind (arrayOf limits ?_) fun _ => pure _
  dsimp only
  split
  · exact bind (value limits 0) fun v => liftResult (kind.ofValue v)
  · exact bind (compact layout) fun v => liftResult (kind.ofValue v)

/-- An element is assembled. -/
lemma element (kind : ElementKind) (limits : Limits) : Assembled (element kind limits) :=
  bind (value limits 0) fun v => liftResult (kind.ofValue v)

/-- The payload of a map is assembled. -/
theorem map (keyKind valueKind : ElementKind) (limits : Limits) :
    Assembled (map keyKind valueKind limits) :=
  bind
    (arrayOf limits (bind (element keyKind limits) fun _ =>
      bind (element valueKind limits) fun _ => pure _))
    fun _ => pure _

end Assembled

end TaggedParcel.Read
