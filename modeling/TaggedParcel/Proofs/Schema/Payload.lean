import TaggedParcel.Proofs.Value.Roundtrip
import TaggedParcel.Schema.FieldKind

set_option relaxedAutoImplicit false
set_option autoImplicit false

/-!
# Reading back the payloads of fields

The payload of a field that holds no objects is read back if the field has the kind that it was
written as, and if no collection in it counts more than the limit.

## Main definitions

* `FieldValue.Fits` — single values whose collections a reader accepts.
* `ElementKind.Own`, `FieldKind.Own` — kinds that are no other kinds with a meaning of their own.
* `ElementKind.Holds` — the elements of a kind that a reader accepts.

## Main results

* `Write.ReadsBack.fieldValue` — single values.
* `FieldValue.length_write` — how many bytes a value of fixed width takes.
* `Write.ReadsBack.listPayload`, `Write.ReadsBack.mapPayload` — lists and maps.
-/

namespace TaggedParcel

/-- Single values whose collections count no more than the limit. -/
def FieldValue.Fits (limits : Limits) : FieldValue → Prop
  | .byteArrayArray items => items.length ≤ limits.maxElements
  | .intArray items => items.length ≤ limits.maxElements
  | .floatArray items => items.length ≤ limits.maxElements
  | .stringArray items => items.length ≤ limits.maxElements
  | .bundle entries => (Value.bundle entries).Fits limits
  | _ => True

/-- A kind of element that is carried as itself. -/
def ElementKind.Own : ElementKind → Prop
  | .refined _ => False
  | _ => True

/-- The elements of a kind whose collections count no more than the limit. -/
structure ElementKind.Holds (limits : Limits) (kind : ElementKind) (v : Value) : Prop where
  /-- The element is of the kind. -/
  ofKind : kind.ofValue v = .ok v
  /-- What is in it can be read. -/
  fits : v.Fits limits

/-- A kind of field whose values and elements are carried as themselves. -/
def FieldKind.Own : FieldKind → Prop
  | .value (.plain _) _ => True
  | .value _ _ => False
  | .list element => element.Own
  | .map k v => k.Own ∧ v.Own
  | .objectMap k _ => k.Own
  | .object _ | .objectArray _ | .objectList _ | .interface _ => True

/-- An element that is carried as itself is written as it is. -/
lemma ElementKind.Own.toValue {kind : ElementKind} (h : kind.Own) (v : Value) :
    kind.toValue v = v := by
  cases kind with
  | refined kind => exact h.elim
  | _ => rfl

/-- A value in a field of fixed width takes as many bytes as the field has. -/
theorem FieldValue.length_write {v : FieldValue} {options : FieldOptions} {layout : Semantic}
    (hlayout : v.kind.shape.resolve options = .ok layout) {width : Nat}
    (hwidth : layout.fixedSize = some width) {maxDepth : Nat} {w w' : Writer}
    (h : v.write maxDepth w = .ok () w') : w'.position = w.position + width := by
  have hword : ∀ n, (w.append (LittleEndian.digits 4 n)).position = w.position + 4 := fun n => by
    rw [Writer.position_append, LittleEndian.length_digits]
  have hlong : ∀ n, (w.append (LittleEndian.digits 8 n)).position = w.position + 8 := fun n => by
    rw [Writer.position_append, LittleEndian.length_digits]
  cases v <;> cases hlayout <;> cases hwidth <;> cases h
  case bool => exact hword _
  case byte => exact hword _
  case short => exact hword _
  case int => exact hword _
  case long => exact hlong _
  case float => exact hword _
  case double => exact hlong _

namespace Write.ReadsBack

variable {limits : Limits}

/-! ## Single values -/

/-- A single value is read back as one of its kind. -/
theorem fieldValue {v : FieldValue} (h : v.Fits limits) :
    ReadsBack (v.write limits.maxDepth) (v.kind.read limits) (some v) := by
  cases v with
  | bool b => exact (liftRead (bool b)).map fun b => some (FieldValue.bool b)
  | byte n =>
    have hword := (liftRead (i32 n.toInt32)).map fun n => some (FieldValue.byte n.toInt8)
    rw [Int8.toInt8_toInt32] at hword
    exact hword
  | short n =>
    have hword := (liftRead (i32 n.toInt32)).map fun n => some (FieldValue.short n.toInt16)
    rw [Int16.toInt16_toInt32] at hword
    exact hword
  | int n => exact (liftRead (i32 n)).map fun n => some (FieldValue.int n)
  | long n => exact (liftRead (i64 n)).map fun n => some (FieldValue.long n)
  | float x => exact (liftRead (float x)).map fun x => some (FieldValue.float x)
  | double x => exact (liftRead (double x)).map fun x => some (FieldValue.double x)
  | string text => exact (lift (string16 text)).map fun text => text.map FieldValue.string
  | byteArray bytes =>
    exact (lift (byteArray bytes)).map fun bytes => bytes.map FieldValue.byteArray
  | byteArrayArray items =>
    have hitems := arrayOf h fun bytes (_ : bytes ∈ items) => required (byteArray bytes)
    exact hitems.map fun items => items.map FieldValue.byteArrayArray
  | intArray items => exact (intArray h).map fun items => items.map FieldValue.intArray
  | floatArray items =>
    have hitems := arrayOf h fun x (_ : x ∈ items) => liftRead (float x)
    exact hitems.map fun items => items.map FieldValue.floatArray
  | stringArray items => exact (stringArray h).map fun items => items.map FieldValue.stringArray
  | bundle entries => exact (bundle 0 h).map fun entries => entries.map FieldValue.bundle
  | binder handle =>
    exact (liftRead (binder handle)).map fun handle => some (FieldValue.binder handle)

/-! ## Lists and maps -/

/-- Whatever can be written without a tag is read back. -/
lemma compact (layout : Semantic) (v : Value) :
    ReadsBack (Write.compact layout v) (Read.compact layout) v := by
  unfold Write.compact Read.compact
  split
  · exact (liftRead (i32 _)).map Value.int
  · exact (liftRead (bool _)).map Value.bool
  · exact (liftRead (i64 _)).map Value.long
  · exact (liftRead (float _)).map Value.float
  · exact (liftRead (double _)).map Value.double
  · exact (required (string16 _)).map Value.string
  · exact throw _ _ _

/-- What is read of an element is the element itself. -/
lemma ofValue {kind : ElementKind} {v : Value} (h : kind.ofValue v = .ok v)
    {write : Write FieldError Unit} {read : Read FieldError Value}
    (hread : ReadsBack write read v) :
    ReadsBack write (read >>= fun v => (liftM (kind.ofValue v) : Read FieldError Value)) v := by
  refine hread.after ?_
  rw [h]
  exact Read.Parses.pure v

/-- An element of a list or a map, as a generic value. -/
lemma element {kind : ElementKind} (hkind : kind.Own) {v : Value} (h : kind.Holds limits v) :
    ReadsBack ((kind.toValue v).write 0 limits.maxDepth) (Read.element kind limits) v := by
  rw [hkind.toValue]
  exact ofValue h.ofKind (value 0 h.fits)

/-- The payload of a list is read back if its elements are of the declared kind and fit. -/
theorem listPayload {kind : ElementKind} (hkind : kind.Own) (layout : Semantic) {items : List Value}
    (h : items.length ≤ limits.maxElements) (hitems : ∀ v ∈ items, kind.Holds limits v) :
    ReadsBack (Write.list kind layout limits.maxDepth items) (Read.list kind layout limits)
      items := by
  unfold Write.list Read.list
  refine map (fun items => items.getD []) (arrayOf h fun v hv => ?_)
  dsimp only
  rw [hkind.toValue]
  split
  · exact ofValue (hitems v hv).ofKind (value 0 (hitems v hv).fits)
  · exact ofValue (hitems v hv).ofKind (compact layout v)

/-- The payload of a map is read back if its keys ascend, and keys and values are of the declared
kinds and fit. -/
theorem mapPayload {keyKind valueKind : ElementKind} (hkey : keyKind.Own) (hvalue : valueKind.Own)
    {entries : List (Value × Value)} (h : entries.length ≤ limits.maxElements)
    (hsorted : Sorted.Ascending Value.compareKeys entries)
    (hkeys : ∀ entry ∈ entries, keyKind.Holds limits entry.1)
    (hvalues : ∀ entry ∈ entries, valueKind.Holds limits entry.2) :
    ReadsBack (Write.map keyKind valueKind limits.maxDepth entries)
      (Read.map keyKind valueKind limits) entries := by
  have hentry : ∀ entry ∈ entries, ReadsBack
      ((keyKind.toValue entry.1).write 0 limits.maxDepth >>= fun _ =>
        (valueKind.toValue entry.2).write 0 limits.maxDepth)
      (Read.element keyKind limits >>= fun k => Read.element valueKind limits >>= fun v =>
        Pure.pure (k, v)) entry := fun entry hentry =>
    (element hkey (hkeys entry hentry)).bind
      ((element hvalue (hvalues entry hentry)).map (Prod.mk entry.1))
  have hmap := (arrayOf h hentry).map fun entries =>
    Sorted.ofList Value.compareKeys (entries.getD [])
  rw [Option.getD_some, Sorted.ofList_ascending Value.compareKeys hsorted] at hmap
  exact hmap

end Write.ReadsBack

end TaggedParcel
