import TaggedParcel.Proofs.Object.Guard

set_option relaxedAutoImplicit false
set_option autoImplicit false

/-!
# Fields that are passed unless objects nest too deep

A field that cannot be read is passed over, so that it cannot end reading; but one with objects in
it can, if these nest too deep. It does so exactly then, if everything else in the field can be
read: there are not too many objects, and the keys in front of them are keys.

## Main definitions

* `FieldKind.Bounds` — collections of objects that a reader accepts.
* `Decode.GuardedField` — the bytes of a field that is passed exactly if a condition holds.
* `Encode.GuardsField` — a computation that writes such a field.
* `Encode.GuardsMember` — a member that is written as such a field.

## Main results

* `FieldSequence.eq_nil_or_field` — what a member is written as has a header, or is nothing.
* `Encode.flat_guards`, `Encode.delimited_guards` — the two ways to write such a field.
* `Encode.field_guards` — a member is written as a field that is passed exactly if no object in it
  nests too deep.
-/

namespace TaggedParcel

/-- Collections of objects that a reader accepts: there are no more items than the limits allow,
and keys can be read back. Nothing is asked of other members. -/
def FieldKind.Bounds (limits : Limits) : FieldKind → Member → Prop
  | .objectArray _, .objectArray items => items.length ≤ limits.maxElements
  | .objectList _, .objectList items => items.length ≤ limits.maxElements
  | .objectMap k _, .objectMap entries =>
    entries.length ≤ limits.maxElements ∧ ∀ entry ∈ entries, k.Returns limits entry.1
  | _, _ => True

/-- At most one field with a certain id is nothing or a header with a payload. -/
lemma FieldSequence.eq_nil_or_field {id : UInt16} {sizes : List (UInt16 × Nat)} {bs : List UInt8}
    (h : FieldSequence sizes bs) (hids : (sizes.map Prod.fst).Sublist [id]) :
    bs = [] ∨ ∃ (format : FieldFormat) (payload : List UInt8), format.Admits payload.length ∧
      bs = format.header id payload.length ++ payload := by
  cases h with
  | nil => exact .inl rfl
  | @cons format id' payload bs rest hadmits hrest =>
    have hlength := hids.length_le
    simp only [List.map_cons, List.length_cons, List.length_map, List.length_nil] at hlength
    cases rest with
    | cons =>
      simp only [List.length_cons] at hlength
      omega
    | nil =>
      cases hrest
      have hid : id' = id := by simpa using hids.subset List.mem_cons_self
      rw [hid, List.append_nil]
      exact .inr ⟨format, payload, hadmits, rfl⟩

namespace Decode

/-! ## One field -/

/-- The bytes of a field that is passed if a condition holds, and at which reading ends for objects
that nest too deep if it does not. -/
inductive GuardedField (limits : Limits) (p : Prop) (read : FieldHeader → Decode Member)
    (entry : FieldDescriptor × FieldKind) : List UInt8 → Prop where
  /-- There is no field. -/
  | missing (hp : p) : GuardedField limits p read entry []
  /-- There are no objects in the field. -/
  | flat {format : FieldFormat} {payload : List UInt8} (hp : p)
    (hflat : entry.2.objectType? = none) (hadmits : format.Admits payload.length) :
    GuardedField limits p read entry (format.header entry.1.id payload.length ++ payload)
  /-- There may be objects in the field, and the rest of it can be read. -/
  | nested {format : FieldFormat} {payload : List UInt8} (hadmits : format.Admits payload.length)
    (hread : ∀ header : FieldHeader, header.size = payload.length →
      Guarded limits p (read header) payload fun _ => True) :
    GuardedField limits p read entry (format.header entry.1.id payload.length ++ payload)

/-- A condition may be put in other words. -/
lemma GuardedField.congr {limits : Limits} {p q : Prop} {read : FieldHeader → Decode Member}
    {entry : FieldDescriptor × FieldKind} {bs : List UInt8}
    (h : GuardedField limits p read entry bs) (hpq : p ↔ q) :
    GuardedField limits q read entry bs := by
  cases h with
  | missing hp => exact .missing (hpq.mp hp)
  | flat hp hflat hadmits => exact .flat (hpq.mp hp) hflat hadmits
  | nested hadmits hread => exact .nested hadmits fun header hsize => (hread header hsize).congr hpq

/-- There is no field, or there is at least its header. -/
lemma GuardedField.nil_or_length {limits : Limits} {p : Prop} {read : FieldHeader → Decode Member}
    {entry : FieldDescriptor × FieldKind} {bs : List UInt8}
    (h : GuardedField limits p read entry bs) : bs = [] ∧ p ∨ 4 ≤ bs.length := by
  cases h with
  | missing hp => exact .inl ⟨rfl, hp⟩
  | @flat format payload | @nested format payload =>
    have hwidth : 4 ≤ format.width := by cases format <;> decide
    rw [List.length_append, format.length_header]
    omega

end Decode

namespace Encode

variable {env : Environment} {limits : Limits} {nested : ObjectWriter} {reader : ObjectReader}
  {type : String} {entry : FieldDescriptor} {kind : FieldKind} {m : Member} {p : Prop}
  {fits : Object → Prop}

/-- A computation that, where it tells nothing, appends the bytes of a guarded field, unless these
are more bytes than an object may have. -/
def GuardsField (limits : Limits) (p : Prop) (write : Encode Unit)
    (read : FieldHeader → Decode Member) (entry : FieldDescriptor × FieldKind) : Prop :=
  Clean write fun bs => bs.length ≤ 8 + limits.maxObjectBytes →
    Decode.GuardedField limits p read entry bs

/-- A member whose field is passed exactly if the objects in it do not nest too deep. -/
def GuardsMember (env : Environment) (limits : Limits) (nested : ObjectWriter)
    (reader : ObjectReader) (type : String) (entry : FieldDescriptor) (fits : Object → Prop)
    (kind : FieldKind) (m : Member) : Prop :=
  GuardsField limits (∀ o ∈ m.objects, fits o) (field env nested type entry kind m)
    (fun header => Decode.member env limits reader type header entry kind) (entry, kind)

/-- A field without objects is passed, whether it can be read or not. -/
lemma flat_guards (hassembles : ∀ inner o, Assembles (fun _ _ _ _ => True) 4 (nested inner o) [o])
    (hlayout : kind.shape.resolve entry.options = .ok entry.semantic)
    (hkeeps : kind.Keeps type entry m) (hflat : kind.objectType? = none) (hp : p)
    (read : FieldHeader → Decode Member) :
    GuardsField limits p (field env nested type entry kind m) read (entry, kind) := by
  refine .of_steady (field_one hassembles hlayout hkeeps) ?_
  rintro bs ⟨sizes, hsizes, hids, -⟩ -
  rcases hsizes.eq_nil_or_field hids with rfl | ⟨format, payload, hadmits, rfl⟩
  · exact .missing hp
  · exact @Decode.GuardedField.flat limits p read (entry, kind) format payload hp hflat hadmits

/-- A missing object is read from a null, and from nothing at all. -/
lemma absent_guards {inner : String} (hp : p) :
    GuardsField limits p (absent type entry)
      (fun header => Decode.member env limits reader type header entry (.object inner))
      (entry, .object inner) := by
  have hread : ∀ header : FieldHeader, header.size = ([] : List UInt8).length →
      Decode.Guarded limits p (Decode.member env limits reader type header entry (.object inner))
        [] fun _ => True := by
    intro header hsize
    have hnull : header.isNull = true := by simp [FieldHeader.isNull, hsize]
    simp only [Decode.member, Decode.field, hnull, if_true]
    exact .of_parses (Decode.Parses.pure _) hp trivial
  unfold absent
  cases entry.options.nullable with
  | false => exact .throw _
  | true =>
    cases entry.semantic.isFixed with
    | true => exact .of_emits Emits.pure fun _ _ => .missing hp
    | false =>
      have hnull := @Decode.GuardedField.nested limits p
        (fun header => Decode.member env limits reader type header entry (.object inner))
        (entry, .object inner) .fixed [] (show 0 < 0xFFFF by decide) hread
      simp only [FieldFormat.header, List.length_nil, Nat.zero_mul, Nat.zero_add,
        List.append_nil] at hnull
      exact .of_emits (nullField_emits entry.id) fun _ _ => hnull

/-- A field whose size is known once its payload is written, if there is a payload. -/
lemma delimited_guards {α : Type} {body : Encode Unit} {reads : Decode α} {good : α → Prop}
    {read : FieldHeader → Decode Member} (h : ReadsIf limits p body reads good)
    (hbytes : Clean body fun bs => bs ≠ [])
    (hread : ∀ (header : FieldHeader) (bs : List UInt8), ¬ header.isNull →
      Decode.Guarded limits p reads bs good →
      Decode.Guarded limits p (read header) bs fun _ => True) :
    GuardsField limits p (delimited entry.id body) read (entry, kind) := by
  refine (delimited_steady (Clean.and h hbytes)).mono ?_
  rintro _ told ⟨payload, rfl, hfits, hform⟩ htold hlength
  obtain ⟨hguarded, hne⟩ := hform htold
  rw [List.length_append, List.length_append] at hlength
  rw [← List.append_assoc]
  refine @Decode.GuardedField.nested limits p read (entry, kind) .delimited payload hfits
    fun header hsize => hread header payload ?_ (hguarded (by omega))
  rw [FieldHeader.isNull, hsize]
  simpa using hne

section Objects

variable {inner : String}
  (hassembles : ∀ o, Assembles (fun _ _ _ _ => True) 4 (nested inner o) [o])
include hassembles

/-- An object, or none. -/
lemma object_guards {o : Option Object}
    (h : ∀ found ∈ (Member.object o).objects, ReadsIf limits (fits found) (nested inner found)
      (reader inner) fun _ => True) :
    GuardsMember env limits nested reader type entry fits (.object inner) (.object o) := by
  cases o with
  | none => exact absent_guards (by simp [Member.objects])
  | some o =>
    have hobject : fits o ↔ ∀ found ∈ (Member.object (some o)).objects, fits found := by
      simp [Member.objects]
    refine delimited_guards ((h o List.mem_cons_self).congr hobject) (.ne_nil (hassembles o))
      fun header bs hnull hguarded => ?_
    simp only [Decode.member, Decode.field]
    rw [if_neg hnull]
    exact hguarded.map (fun o => Member.object (some o)) fun _ _ => trivial

/-- An array whose objects may be missing. -/
lemma objectArray_guards {items : List (Option Object)}
    (hcount : items.length ≤ limits.maxElements)
    (h : ∀ o ∈ items.filterMap id, ReadsIf limits (fits o) (nested inner o) (reader inner)
      fun _ => True) :
    GuardsMember env limits nested reader type entry fits (.objectArray inner)
      (.objectArray items) := by
  have hmem : ∀ o, o ∈ items.filterMap id ↔ some o ∈ items := by simp
  have hitem : ∀ item ∈ items, ReadsIf limits (∀ o ∈ item, fits o)
      (elementOrNull nested inner item) (Decode.element reader inner) fun _ => True := by
    intro item hitem
    refine .elementOrNull (fun o ho => h o ?_) fun o => .ne_nil (hassembles o)
    rw [hmem, ← Option.mem_def.mp ho]
    exact hitem
  have hitems : (∀ item ∈ items, ∀ o ∈ item, fits o) ↔ ∀ o ∈ items.filterMap id, fits o := by
    simp only [hmem, Option.mem_def]
    exact ⟨fun h o ho => h _ ho o rfl, fun h item hitem o ho => h o (ho ▸ hitem)⟩
  refine delimited_guards ((ReadsIf.counted hcount hitem).congr hitems)
    (.ne_nil (objectArray_assembles hassembles items)) fun header bs hnull hguarded => ?_
  simp only [Decode.member, Decode.field, Decode.collection_eq hnull]
  exact hguarded.map Member.objectArray fun _ _ => trivial

/-- A list of objects, each behind its size or as a generic value. -/
lemma objectList_guards {items : List Object} (hcount : items.length ≤ limits.maxElements)
    (h : ∀ o ∈ items, ReadsIf limits (fits o) (nested inner o) (reader inner) fun _ => True) :
    GuardsMember env limits nested reader type entry fits (.objectList inner)
      (.objectList items) := by
  have hbody : ReadsIf limits (∀ o ∈ items, fits o)
      (objectList env nested entry.semantic inner items)
      (Decode.counted limits (Decode.required (if entry.semantic = .list then
        Decode.tagged reader inner else Decode.element reader inner))) fun _ => True := by
    unfold objectList
    refine .behind (Clean.payload (Write.Mirrors.count hcount)) ?_
    split
    · exact Steady.schema fun found _ => ReadsIf.each fun o ho =>
        ((h o ho).tagged found.name).required
    · exact .each fun o ho => ((h o ho).element (.ne_nil (hassembles o))).required
  refine delimited_guards hbody (.ne_nil (objectList_assembles hassembles _ items))
    fun header bs hnull hguarded => ?_
  simp only [Decode.member, Decode.field, Decode.collection_eq hnull]
  exact hguarded.map Member.objectList fun _ _ => trivial

/-- A map to objects, from keys that can be read back. -/
lemma objectMap_guards {k : ElementKind} {entries : List (Value × Object)}
    (hcount : entries.length ≤ limits.maxElements)
    (hkeys : ∀ entry ∈ entries, k.Returns limits entry.1)
    (h : ∀ o ∈ entries.map Prod.snd, ReadsIf limits (fits o) (nested inner o) (reader inner)
      fun _ => True) :
    GuardsMember env limits nested reader type entry fits (.objectMap k inner)
      (.objectMap entries) := by
  refine Steady.schema fun found _ => ?_
  have hentry : ∀ entry ∈ entries, ReadsIf limits (fits entry.2)
      (payload ((k.toValue entry.1).write 0 encodeDepth) >>= fun _ =>
        tagged nested inner found.name entry.2)
      (Decode.payload (Read.element k limits) >>= fun key =>
        Decode.required (Decode.tagged reader inner) >>= fun o => pure (key, o))
      fun _ => True := by
    intro entry hentry
    obtain ⟨key, hkey⟩ := (hkeys entry hentry).mirrors 0 encodeDepth
    exact .behind (Clean.payload hkey)
      ((((h entry.2 (List.mem_map_of_mem hentry)).tagged found.name).required).map
        (Prod.mk key) fun _ _ => trivial)
  refine delimited_guards ((ReadsIf.counted hcount hentry).congr List.forall_mem_map.symm)
    (.ne_nil (objectMap_assembles hassembles k found.name entries))
    fun header bs hnull hguarded => ?_
  simp only [Decode.member, Decode.field, Decode.collection_eq hnull]
  exact hguarded.map (fun entries => Member.objectMap (Sorted.ofList Value.compareKeys entries))
    fun _ _ => trivial

end Objects

/-- A member is written as a field that is passed exactly if no object in it nests too deep.

**Proof sketch.** Without objects the field is passed whatever becomes of it. Otherwise there is
one lemma for every kind of field. -/
theorem field_guards
    (hassembles : ∀ inner o, Assembles (fun _ _ _ _ => True) 4 (nested inner o) [o])
    (hlayout : kind.shape.resolve entry.options = .ok entry.semantic) (htakes : kind.Takes m)
    (hkeeps : kind.Keeps type entry m) (hbounds : kind.Bounds limits m)
    (hnested : ∀ inner, kind.objectType? = some inner →
      ∀ o ∈ m.objects, ReadsIf limits (fits o) (nested inner o) (reader inner) fun _ => True) :
    GuardsMember env limits nested reader type entry fits kind m := by
  cases hkind : kind.objectType? with
  | none =>
    exact flat_guards hassembles hlayout hkeeps hkind
      (by simp [FieldKind.objects_eq_nil htakes hkind]) _
  | some inner =>
    cases kind <;> cases hkind <;> cases m <;> try exact htakes.elim
    case object.refl.object o => exact object_guards (hassembles inner) (hnested inner rfl)
    case objectArray.refl.objectArray items =>
      exact objectArray_guards (hassembles inner) hbounds (hnested inner rfl)
    case objectList.refl.objectList items =>
      exact objectList_guards (hassembles inner) hbounds (hnested inner rfl)
    case objectMap.refl.objectMap k entries =>
      exact objectMap_guards (hassembles inner) hbounds.1 hbounds.2 (hnested inner rfl)

end Encode

end TaggedParcel
