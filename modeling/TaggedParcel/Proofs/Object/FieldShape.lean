import TaggedParcel.Proofs.Object.Emission
import TaggedParcel.Proofs.Object.FieldRoundtrip
import TaggedParcel.Proofs.Schema.Order

set_option relaxedAutoImplicit false
set_option autoImplicit false

/-!
# The form of a field

A field is written in one of four forms, and which one it is can be told from the field and the
member alone: nothing or a null without a value, else a header that holds the fixed size of the
payload, or a header behind which the size stands. A payload is never empty, so that it is not
taken for a null.

## Main definitions

* `Member.Absent` — members without a value.
* `FieldKind.Suits` — the members that belong into a field of a kind.
* `Encode.Written` — the four forms.
* `Encode.WritesForm` — a computation that writes a member in the form that is due.

## Main results

* `FieldKind.fixedSize_eq_none` — only single values have a fixed size.
* `Encode.absent_form`, `Encode.packed_form`, `Encode.delimited_form` — the ways to write a field.
* `Encode.field_form` — every member is written in the form that is due.
-/

namespace TaggedParcel

/-- A member without a value. Collections are never without one. -/
def Member.Absent : Member → Prop
  | .value none | .object none | .interface none => True
  | _ => False

/-- The members that belong into a field of a kind. Single values are of the kind that was
declared, which has no meaning of its own. Of the objects in a member nothing is asked. -/
def FieldKind.Suits : FieldKind → Member → Prop
  | .value (.plain kind) _, .value v => ∀ x ∈ v, x.kind = kind
  | .value (.uncarried _) _, .value _ => True
  | .list _, .list _ | .map _ _, .map _ | .object _, .object _ => True
  | .objectArray _, .objectArray _ | .objectList _, .objectList _ => True
  | .objectMap _ _, .objectMap _ | .interface _, .interface _ => True
  | _, _ => False

namespace Shape

variable {options : FieldOptions} {layout : Semantic}

/-- A list has no fixed size, with tags or without. -/
lemma fixedSize_list {element : Shape} (h : (list element).resolve options = .ok layout) :
    layout.fixedSize = none := by
  simp only [resolve] at h
  split at h
  case h_1 hcompact _ =>
    cases h
    unfold compactSemantic? at hcompact
    split at hcompact <;> cases hcompact <;> rfl
  case h_2 =>
    unfold listSemantic at h
    split at h
    · cases h
      split <;> rfl
    · cases h
      split <;> rfl
    · split at h
      · cases h
        rfl
      · cases h

/-- A map has no fixed size. -/
lemma fixedSize_map {k v : Shape} (h : (map k v).resolve options = .ok layout) :
    layout.fixedSize = none := by
  obtain ⟨_, -, h⟩ := bind_eq_ok h
  obtain ⟨_, -, h⟩ := bind_eq_ok h
  cases h
  rfl

end Shape

/-- Only single values have a fixed size. -/
lemma FieldKind.fixedSize_eq_none {kind : FieldKind}
    (hkind : ∀ k optional, kind ≠ .value k optional) {options : FieldOptions} {layout : Semantic}
    (h : kind.shape.resolve options = .ok layout) : layout.fixedSize = none := by
  cases kind with
  | value k optional => exact absurd rfl (hkind k optional)
  | list element => exact Shape.fixedSize_list h
  | map k v => exact Shape.fixedSize_map h
  | objectList type => exact Shape.fixedSize_list h
  | objectMap k type => exact Shape.fixedSize_map h
  | object type | objectArray type | interface proxy =>
    cases h
    rfl

namespace Encode

/-- The field of a member at an offset, its id if there is a field at all, its bytes, and what the
objects in it tell. -/
inductive Written (frame : Nat → Object → List UInt8 → Report → Prop) (entry : FieldDescriptor)
    (m : Member) (start : Nat) : List UInt16 → List UInt8 → Report → Prop where
  /-- Without a value there is no field of fixed width. -/
  | skipped (habsent : m.Absent) (hnullable : entry.options.nullable = true)
    (hfixed : entry.semantic.isFixed = true) : Written frame entry m start [] [] []
  /-- Without a value any other field is a null: the word equal to the id. -/
  | null (habsent : m.Absent) (hnullable : entry.options.nullable = true)
    (hvariable : entry.semantic.fixedSize = none) :
    Written frame entry m start [entry.id] (LittleEndian.digits 4 entry.id.toNat) []
  /-- The header of a field of fixed width holds the size of the payload. -/
  | packed {width : Nat} {payload : List UInt8} (hpresent : ¬ m.Absent)
    (hfixed : entry.semantic.fixedSize = some width) (hwidth : payload.length = width)
    (haligned : 4 ∣ start + 4) :
    Written frame entry m start [entry.id]
      (LittleEndian.digits 4 (width * 0x10000 + entry.id.toNat) ++ payload) []
  /-- The header of any other field has the size of the payload behind it. The payload is never
  empty, and the objects in it stand in order. -/
  | escaped {payload : List UInt8} {told : Report} (hpresent : ¬ m.Absent)
    (hvariable : entry.semantic.fixedSize = none) (hleast : 4 ≤ payload.length)
    (hfits : payload.length < UInt32.size) (haligned : 4 ∣ start + 8)
    (hpieces : Pieces frame (start + 8) m.objects payload told) :
    Written frame entry m start [entry.id]
      (LittleEndian.digits 4 (0xFFFF * 0x10000 + entry.id.toNat) ++
        (LittleEndian.digits 4 payload.length ++ payload)) told

/-- A computation that appends whole words, and these are the field of a member, if the field has
the layout that its kind gives and the member belongs into it. -/
def WritesForm (frame : Nat → Object → List UInt8 → Report → Prop) (entry : FieldDescriptor)
    (kind : FieldKind) (m : Member) (write : Encode Unit) : Prop :=
  Steady write fun bs told => 4 ∣ bs.length ∧
    (kind.shape.resolve entry.options = .ok entry.semantic → kind.Suits m →
      ∀ start, 4 ∣ start → ∃ ids, Written frame entry m start ids bs told)

/-- The objects in a field may be described in another way. -/
lemma Written.mono {frame frame' : Nat → Object → List UInt8 → Report → Prop}
    {entry : FieldDescriptor} {m : Member} {start : Nat} {ids : List UInt16} {bs : List UInt8}
    {told : Report} (h : Written frame entry m start ids bs told)
    (hframe : ∀ o ∈ m.objects, ∀ start bs told, frame start o bs told → frame' start o bs told) :
    Written frame' entry m start ids bs told := by
  cases h with
  | skipped habsent hnullable hfixed => exact .skipped habsent hnullable hfixed
  | null habsent hnullable hvariable => exact .null habsent hnullable hvariable
  | packed hpresent hfixed hwidth haligned => exact .packed hpresent hfixed hwidth haligned
  | escaped hpresent hvariable hleast hfits haligned hpieces =>
    exact .escaped hpresent hvariable hleast hfits haligned (hpieces.mono hframe)

variable {env : Environment} {nested : ObjectWriter} {type : String}
  {frame : Nat → Object → List UInt8 → Report → Prop} {entry : FieldDescriptor} {kind : FieldKind}
  {m : Member} {width : Nat}

/-! ## The ways to write a field -/

/-- A field without a payload is a null: the word equal to its id. -/
lemma nullField_emits (id : UInt16) :
    Emits (payload (Write.nullField id)) [] (.ok (LittleEndian.digits 4 id.toNat)) := by
  have hword : (headerWord 0 id).toNat = id.toNat := by
    rw [headerWord_toNat (by decide), Nat.zero_mul, Nat.zero_add]
  rw [← hword]
  exact Emits.onWriter CodecError.field (Write.Emits.raw _)

/-- The header of a field of fixed width. -/
lemma fixedHeader_emits (hwidth : entry.semantic.fixedSize = some width) :
    Emits (Encode.frame (Write.fieldHeader entry.id width)) []
      (.ok (LittleEndian.digits 4 (width * 0x10000 + entry.id.toNat))) := by
  obtain ⟨-, hlt⟩ := Semantic.fixedSize_bounds hwidth
  have hword : (headerWord width entry.id).toNat = width * 0x10000 + entry.id.toNat :=
    headerWord_toNat (Nat.lt_trans hlt (by decide)) entry.id
  unfold Write.fieldHeader
  rw [if_neg (Nat.not_le.mpr (Nat.lt_trans hlt (by decide))), if_pos hlt, ← hword]
  exact Emits.onWriter CodecError.ofFrame (Write.Emits.raw _)

/-- The payload of a field whose size is known afterwards stands behind a reserved word. -/
lemma delimited_apply (id : UInt16) (body : Encode Unit) (w : Writer) (events : List Diagnostic) :
    delimited id body ⟨w, events⟩ =
      (body >>= fun _ => closeExtent CodecError.ofFrame FrameError.buffer
        ⟨(w.append (LittleEndian.digits 4 (escapedWord id).toNat)).position⟩)
        ⟨(w.append (LittleEndian.digits 4 (escapedWord id).toNat)).append
          (LittleEndian.digits 4 0), events⟩ :=
  rfl

/-- A field whose size is known afterwards: a header, the size, and what the body appends. -/
lemma delimited_steady {id : UInt16} {body : Encode Unit} {form : List UInt8 → Report → Prop}
    (h : Steady body form) :
    Steady (delimited id body) fun bs told => ∃ inner,
      bs = LittleEndian.digits 4 (0xFFFF * 0x10000 + id.toNat) ++
        (LittleEndian.digits 4 inner.length ++ inner) ∧
      inner.length < UInt32.size ∧ form inner told := by
  rw [← escapedWord_toNat]
  exact Steady.extent (delimited_apply id body) h

/-- A field without a value fails if it is not nullable, and that is fatal. -/
lemma absent_form (habsent : m.Absent) : WritesForm frame entry kind m (absent type entry) := by
  unfold absent
  cases hnullable : entry.options.nullable with
  | false => exact .throw _
  | true =>
    cases hfixed : entry.semantic.isFixed with
    | true =>
      exact .of_emits Emits.pure ⟨Nat.dvd_zero 4, fun _ _ _ _ =>
        ⟨_, .skipped habsent hnullable hfixed⟩⟩
    | false =>
      refine .of_emits (nullField_emits entry.id)
        ⟨by simp, fun _ _ _ _ => ⟨_, .null habsent hnullable ?_⟩⟩
      exact Option.isSome_eq_false_iff.mp hfixed |> Option.isNone_iff_eq_none.mp

/-- A field whose size is known once its payload is written. -/
lemma delimited_form {body : Encode Unit} (hpresent : ¬ m.Absent)
    (h : Assembles frame 4 body m.objects)
    (hvariable : kind.shape.resolve entry.options = .ok entry.semantic →
      entry.semantic.fixedSize = none) :
    WritesForm frame entry kind m (delimited entry.id body) := by
  refine (delimited_steady h).mono ?_
  rintro _ told ⟨payload, rfl, hfits, hwords, hleast, hpieces⟩
  constructor
  · rw [List.length_append, List.length_append, LittleEndian.length_digits,
      LittleEndian.length_digits]
    omega
  · intro hlayout _ start hstart
    have haligned : 4 ∣ start + 8 := by omega
    exact ⟨_, .escaped hpresent (hvariable hlayout) hleast hfits haligned (hpieces _ haligned)⟩

/-- A field whose size stands in its header: the payload takes exactly so much. -/
lemma packed_form {k : ValueKind} {optional : Bool} {v : FieldValue} {width : Nat}
    (hwidth : entry.semantic.fixedSize = some width) :
    WritesForm frame entry (.value k optional) (.value (some v))
      (Encode.frame (Write.fieldHeader entry.id width) >>= fun _ =>
        payload (k.write type encodeDepth v)) := by
  obtain ⟨result, hemits, hform⟩ := Write.Steady.valueKind type encodeDepth k v
  have hboth := (fixedHeader_emits hwidth).bind (Emits.onWriter CodecError.field hemits)
  cases result with
  | error e => exact .of_error hboth
  | ok payload =>
    refine .of_emits hboth ⟨?_, fun hlayout hsuits start hstart => ?_⟩
    · rw [List.length_append, LittleEndian.length_digits]
      exact Nat.dvd_add (Nat.dvd_refl 4) (hform payload rfl).1
    · refine ⟨_, .packed id hwidth ?_ (Nat.dvd_add hstart (Nat.dvd_refl 4))⟩
      cases k with
      | refined kind => exact hsuits.elim
      | uncarried shape => cases (Write.Emits.throw _).unique hemits
      | plain kind =>
        have hkind : v.kind = kind := hsuits v rfl
        have hlength := FieldValue.length_write (hkind ▸ hlayout) hwidth (hemits .empty)
        rw [Writer.position_append] at hlength
        omega

/-- A field with a single value. -/
lemma single_form {k : ValueKind} {optional : Bool} {v : FieldValue} :
    WritesForm frame entry (.value k optional) (.value (some v)) (single type entry k v) := by
  unfold single
  split
  case isTrue hleft =>
    -- only a kind with a meaning of its own leaves values out
    have hvoid : WritesForm frame entry (.value k optional) (.value none) (absent type entry) :=
      absent_form trivial
    refine hvoid.mono fun bs told hform => ⟨hform.1, fun _ hsuits => ?_⟩
    cases k with
    | plain kind => cases hleft
    | refined kind => exact hsuits.elim
    | uncarried shape => cases hleft
  case isFalse =>
    cases hwidth : entry.semantic.fixedSize with
    | some width => exact packed_form hwidth
    | none =>
      exact delimited_form id (Assembles.payload (Write.Steady.valueKind type encodeDepth k v))
        fun _ => hwidth

/-! ## Members -/

/-- A member that does not belong into its field is not written. -/
lemma mismatch_form (hfield : field env nested type entry kind m =
    throw (.field (.typeMismatch kind.memberName m.kindName))) :
    WritesForm frame entry kind m (field env nested type entry kind m) := by
  rw [hfield]
  exact .throw _

/-- The payload of a collection: a count, and the items, in which the objects stand. -/
lemma counted_assembles {α : Type} {items : List α} {write : α → Encode Unit}
    {inside : α → List Object} (h : ∀ a ∈ items, Assembles frame 4 (write a) (inside a)) :
    Assembles frame 4 (payload (liftM (Write.length items.length)) >>= fun _ => each write items)
      (items.flatMap inside) :=
  .bind (.payload (Write.Steady.lift (Write.Steady.length items.length))) (.each h)

section Objects

variable {inner : String} (hnested : ∀ o, Assembles frame 4 (nested inner o) [o])
include hnested

/-- An array whose objects may be missing. -/
lemma objectArray_assembles (items : List (Option Object)) :
    Assembles frame 4 (payload (liftM (Write.length items.length)) >>= fun _ =>
      each (elementOrNull nested inner) items) (items.filterMap id) := by
  rw [List.filterMap_eq_flatMap_toList]
  exact counted_assembles fun item _ => .elementOrNull fun o _ => hnested o

/-- A list of objects, each behind its size or as a generic value. -/
lemma objectList_assembles (layout : Semantic) (items : List Object) :
    Assembles frame 4 (objectList env nested layout inner items) items := by
  have hitems : items.flatMap (fun o => [o]) = items := List.flatMap_singleton' items
  have hlength : Assembles frame 4 (payload (liftM (Write.length items.length))) [] :=
    .payload (Write.Steady.lift (Write.Steady.length items.length))
  unfold objectList
  refine .bind hlength ?_
  split
  · refine Steady.schema fun found _ => ?_
    have htagged := Assembles.each fun o (_ : o ∈ items) => (hnested o).tagged found.name
    rw [hitems] at htagged
    exact htagged
  · have helement := Assembles.each fun o (_ : o ∈ items) => (hnested o).element
    rw [hitems] at helement
    exact helement

/-- The entries of a map to objects. -/
lemma objectMap_assembles (k : ElementKind) (name : String) (entries : List (Value × Object)) :
    Assembles frame 4 (payload (liftM (Write.length entries.length)) >>= fun _ =>
      each (fun entry => do
        payload ((k.toValue entry.1).write 0 encodeDepth)
        tagged nested inner name entry.2) entries) (entries.map Prod.snd) := by
  have hentries : entries.map Prod.snd = entries.flatMap fun entry => [entry.2] :=
    List.map_eq_flatMap
  rw [hentries]
  exact counted_assembles fun entry _ =>
    .bind (.payload (Write.Steady.value 0 encodeDepth _)) ((hnested entry.2).tagged name).weaken

end Objects

/-- Every member is written in the form that is due.

**Proof sketch.** One case for every kind of field, in which the member is one that belongs there
or is refused. What is nested in the member is written by assumption. -/
theorem field_form (hnested : ∀ inner, kind.objectType? = some inner →
    ∀ o, Assembles frame 4 (nested inner o) [o]) :
    WritesForm frame entry kind m (field env nested type entry kind m) := by
  have hvariable : (∀ k optional, kind ≠ .value k optional) →
      kind.shape.resolve entry.options = .ok entry.semantic → entry.semantic.fixedSize = none :=
    fun hkind hlayout => FieldKind.fixedSize_eq_none hkind hlayout
  cases kind with
  | value k optional =>
    cases m with
    | value v =>
      cases v with
      | some v => exact single_form
      | none => exact absent_form trivial
    | _ => exact mismatch_form rfl
  | list element =>
    cases m with
    | list items =>
      exact delimited_form id (.payload (Write.Steady.list element _ encodeDepth items))
        (hvariable (by simp))
    | _ => exact mismatch_form rfl
  | map k v =>
    cases m with
    | map entries =>
      exact delimited_form id (.payload (Write.Steady.map k v encodeDepth entries))
        (hvariable (by simp))
    | _ => exact mismatch_form rfl
  | object inner =>
    cases m with
    | object o =>
      cases o with
      | some o => exact delimited_form id (hnested inner rfl o) (hvariable (by simp))
      | none => exact absent_form trivial
    | _ => exact mismatch_form rfl
  | objectArray inner =>
    cases m with
    | objectArray items =>
      exact delimited_form id (objectArray_assembles (hnested inner rfl) items)
        (hvariable (by simp))
    | _ => exact mismatch_form rfl
  | objectList inner =>
    cases m with
    | objectList items =>
      exact delimited_form id (objectList_assembles (hnested inner rfl) _ items)
        (hvariable (by simp))
    | _ => exact mismatch_form rfl
  | objectMap k inner =>
    cases m with
    | objectMap entries =>
      exact Steady.schema fun found _ =>
        delimited_form id (objectMap_assembles (hnested inner rfl) k found.name entries)
          (hvariable (by simp))
    | _ => exact mismatch_form rfl
  | interface proxy =>
    cases m with
    | interface handle =>
      cases handle with
      | some handle =>
        exact delimited_form id (.payload (Write.Steady.binder handle))
          (hvariable (by simp))
      | none => exact absent_form trivial
    | _ => exact mismatch_form rfl

end Encode

end TaggedParcel
