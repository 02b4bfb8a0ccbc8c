import TaggedParcel.Descriptor.Basic
import TaggedParcel.Proofs.Schema.Order

set_option relaxedAutoImplicit false
set_option autoImplicit false

/-!
# Which descriptors can be built

A descriptor can be built from fields of its own and of ancestors exactly if their ids are sound,
and then it does not depend on the order in which the fields were given. Otherwise the first field
is named that cannot stand behind those before it.

## Main definitions

* `TypeDescriptor.SoundIds` — fields with distinct ids, none of which is reserved.
* `TypeDescriptor.FirstFault` — what is wrong with the first field that is refused.

## Main results

* `TypeDescriptor.addField_cases` — the step: what adding one field does.
* `TypeDescriptor.addFields_cases` — the run: what adding fields one after another does.
* `TypeDescriptor.build_cases` — so a descriptor is built, or the first fault is found.
* `TypeDescriptor.build_perm` — items in another order give the same descriptor.
* `TypeDescriptor.build_exact` — when a descriptor is built, what it is, and why it is not built.
-/

namespace TaggedParcel

namespace TypeDescriptor

/-- Fields whose ids are in the range of ids that fields may have, and distinct. -/
structure SoundIds (fields : List FieldDescriptor) : Prop where
  /-- No id is reserved. -/
  usable : ∀ field ∈ fields, 1 ≤ field.id.toNat ∧ field.id.toNat ≤ 0xFFFE
  /-- No two fields share an id. -/
  nodup : (fields.map FieldDescriptor.id).Nodup

/-- What is wrong with the first field that may not stand behind those before it. -/
inductive FirstFault (type : String) (fields : List FieldDescriptor) : SchemaError → Prop where
  /-- Its id is reserved. -/
  | reserved {front back : List FieldDescriptor} {field : FieldDescriptor}
    (hfields : fields = front ++ field :: back) (hfront : SoundIds front)
    (hid : field.id.toNat = 0 ∨ field.id.toNat = 0xFFFF) :
    FirstFault type fields (.reservedFieldId type field.name field.id)
  /-- Its id is not reserved, but a field before it has the same. Of these the earliest is named
  before it. -/
  | duplicate {before between back : List FieldDescriptor} {first field : FieldDescriptor}
    (hfields : fields = before ++ first :: between ++ field :: back)
    (hfront : SoundIds (before ++ first :: between))
    (hid : 1 ≤ field.id.toNat ∧ field.id.toNat ≤ 0xFFFE) (hsame : first.id = field.id)
    (hearliest : ∀ other ∈ before, other.id ≠ field.id) :
    FirstFault type fields (.duplicateFieldId type field.id first.name field.name)

section Ids

variable {fields fields' : List FieldDescriptor} {field : FieldDescriptor}

/-- Where there are no fields, the ids are sound. -/
lemma SoundIds.nil : SoundIds [] :=
  ⟨fun _ hfield => absurd hfield List.not_mem_nil, List.nodup_nil⟩

/-- The order does not matter for whether ids are sound. -/
lemma SoundIds.of_perm (h : SoundIds fields) (hperm : fields'.Perm fields) : SoundIds fields' :=
  ⟨fun field hfield => h.usable field (hperm.mem_iff.mp hfield),
    (hperm.map FieldDescriptor.id).nodup_iff.mpr h.nodup⟩

/-- A field with a new id that is not reserved can stand behind the others. -/
lemma SoundIds.snoc (h : SoundIds fields) (hid : 1 ≤ field.id.toNat ∧ field.id.toNat ≤ 0xFFFE)
    (hnew : field.id ∉ fields.map FieldDescriptor.id) : SoundIds (fields ++ [field]) := by
  refine SoundIds.of_perm ⟨List.forall_mem_cons.mpr ⟨hid, h.usable⟩, ?_⟩
    (List.perm_append_singleton field fields)
  rw [List.map_cons, List.nodup_cons]
  exact ⟨hnew, h.nodup⟩

/-- Where there is a first fault, the ids are not sound. -/
lemma FirstFault.not_soundIds {type : String} {e : SchemaError} (h : FirstFault type fields e) :
    ¬ SoundIds fields := by
  intro hsound
  cases h with
  | @reserved front back field hfields _ hid =>
    subst hfields
    have husable := hsound.usable field (List.mem_append_right _ List.mem_cons_self)
    omega
  | @duplicate before between back first field hfields _ _ hsame _ =>
    subst hfields
    have hnodup := hsound.nodup
    rw [List.map_append, List.map_append, List.map_cons, List.map_cons] at hnodup
    refine (List.nodup_append.mp hnodup).2.2 first.id ?_ field.id List.mem_cons_self hsame
    exact List.mem_append_right _ List.mem_cons_self

/-- The ids that no field may have are the least and the greatest. -/
lemma isReserved_iff (id : UInt16) :
    isReserved id = true ↔ id.toNat = 0 ∨ id.toNat = 0xFFFF := by
  rw [isReserved, Bool.or_eq_true, beq_iff_eq, beq_iff_eq, ← UInt16.toNat_inj, ← UInt16.toNat_inj]
  rfl

end Ids

/-! ## Adding fields -/

variable {done fields : List FieldDescriptor}

/-- A field is added to sound fields if it can stand behind them. Otherwise it is the first fault,
whatever comes behind it. -/
lemma addField_cases (type : String) (hdone : SoundIds done) (hperm : fields.Perm done)
    (field : FieldDescriptor) :
    (∃ fields', addField type fields field = .ok fields' ∧ fields'.Perm (done ++ [field]) ∧
      SoundIds (done ++ [field])) ∨
    ∃ e, addField type fields field = .error e ∧
      ∀ back, FirstFault type (done ++ field :: back) e := by
  unfold addField
  by_cases hreserved : isReserved field.id = true
  · rw [if_pos hreserved]
    exact .inr ⟨_, rfl, fun back => .reserved rfl hdone ((isReserved_iff _).mp hreserved)⟩
  have hid : 1 ≤ field.id.toNat ∧ field.id.toNat ≤ 0xFFFE := by
    have hlt := field.id.toNat_lt
    rw [isReserved_iff] at hreserved
    omega
  rw [if_neg hreserved]
  cases hfind : find? fields field.id with
  | none =>
    have hnew : field.id ∉ done.map FieldDescriptor.id := by
      intro hmem
      obtain ⟨other, hother, hsame⟩ := List.mem_map.mp hmem
      exact List.find?_eq_none.mp hfind other (hperm.mem_iff.mpr hother) (beq_iff_eq.mpr hsame)
    refine .inl ⟨_, rfl, ?_, hdone.snoc hid hnew⟩
    exact ((insertById_perm field fields).trans (hperm.cons field)).trans
      (List.perm_append_singleton field done).symm
  | some first =>
    refine .inr ⟨_, rfl, fun back => ?_⟩
    have hfound := List.find?_some hfind
    have hsame : first.id = field.id := beq_iff_eq.mp hfound
    have hfirst : first ∈ done := hperm.mem_iff.mp (List.mem_of_find?_eq_some hfind)
    obtain ⟨before, between, rfl⟩ := List.append_of_mem hfirst
    refine .duplicate rfl hdone hid hsame fun other hother hid => ?_
    -- another field with this id before `first` would not be sound
    have hnodup := hdone.nodup
    rw [List.map_append, List.map_cons] at hnodup
    exact (List.nodup_append.mp hnodup).2.2 other.id (List.mem_map_of_mem hother) first.id
      List.mem_cons_self (hid.trans hsame.symm)

/-- Fields are added one after another to sound fields, or the first fault among them is found. -/
lemma addFields_cases (type : String) (hdone : SoundIds done) (hperm : fields.Perm done)
    (items : List FieldDescriptor) :
    (∃ fields', items.foldlM (addField type) fields = .ok fields' ∧
      fields'.Perm (done ++ items) ∧ SoundIds (done ++ items)) ∨
    ∃ e, items.foldlM (addField type) fields = .error e ∧ FirstFault type (done ++ items) e := by
  induction items generalizing done fields with
  | nil =>
    rw [List.append_nil]
    exact .inl ⟨fields, rfl, hperm, hdone⟩
  | cons field items ih =>
    rw [List.foldlM_cons]
    rcases addField_cases type hdone hperm field with
      ⟨added, hadd, hadded, hsound⟩ | ⟨e, hadd, hfault⟩
    · rw [hadd]
      have hrest := ih hsound hadded
      rw [List.append_assoc, List.singleton_append] at hrest
      exact hrest
    · rw [hadd]
      exact .inr ⟨e, rfl, hfault items⟩

/-! ## Building -/

variable {name : String} {constructible : Bool} {items items' : List DescriptorItem}

/-- A descriptor is built from sound fields, and otherwise the first fault among them is found. -/
lemma build_cases (name : String) (constructible : Bool) (items : List DescriptorItem) :
    (∃ fields, build name constructible items = .ok ⟨name, fields, constructible⟩ ∧
      fields.Perm (items.flatMap DescriptorItem.fields) ∧
      fields.Pairwise (fun a b => a.id < b.id) ∧
      SoundIds (items.flatMap DescriptorItem.fields)) ∨
    ∃ e, build name constructible items = .error e ∧
      FirstFault name (items.flatMap DescriptorItem.fields) e := by
  unfold build
  rcases addFields_cases name SoundIds.nil (.refl [])
    (items.flatMap DescriptorItem.fields) with ⟨fields, hadd, hperm, hsound⟩ | ⟨e, hadd, hfault⟩
  · rw [hadd]
    exact .inl ⟨fields, rfl, hperm, addFields_ascending hadd .nil, hsound⟩
  · rw [hadd]
    exact .inr ⟨e, rfl, hfault⟩

/-- What was built holds the fields that were given, in ascending order and under sound ids. -/
lemma build_ok {d : TypeDescriptor} (h : build name constructible items = .ok d) :
    ∃ fields, d = ⟨name, fields, constructible⟩ ∧
      fields.Perm (items.flatMap DescriptorItem.fields) ∧
      fields.Pairwise (fun a b => a.id < b.id) ∧
      SoundIds (items.flatMap DescriptorItem.fields) := by
  rcases build_cases name constructible items with ⟨fields, hok, hall⟩ | ⟨e, he, -⟩
  · cases hok.symm.trans h
    exact ⟨fields, rfl, hall⟩
  · cases he.symm.trans h

/-- Items in another order give the same descriptor. -/
lemma build_perm {d : TypeDescriptor} (h : build name constructible items = .ok d)
    (hperm : items'.Perm items) : build name constructible items' = .ok d := by
  have hfields := hperm.flatMap_right DescriptorItem.fields
  obtain ⟨fields, rfl, hall, hsorted, hsound⟩ := build_ok h
  rcases build_cases name constructible items' with
    ⟨fields', hok', hall', hsorted', -⟩ | ⟨e, -, hfault⟩
  · have hsame : fields' = fields := by
      refine List.Perm.eq_of_pairwise (fun a b _ _ hab hba => ?_) hsorted' hsorted
        (hall'.trans (hfields.trans hall.symm))
      exact absurd (UInt16.lt_trans hab hba) (UInt16.lt_irrefl _)
    rw [hok', hsame]
  · exact absurd (hsound.of_perm hfields) hfault.not_soundIds

/-- A descriptor is built exactly if all ids are between one and `0xFFFE` and no two fields share
one, whether they are fields of its own or of ancestors. It holds just these fields, in ascending
order of their ids, and items in any other order give the same descriptor, with the same
fingerprint. If it is not built, the error is that of the first field whose id is reserved or
repeats that of an earlier one.

**Proof sketch.** The fields added so far are always those seen so far, in ascending order, so that
a field is looked up among all before it. A field that is added keeps this, and one that is not is
the first fault. Two lists in strictly ascending order with the same fields are the same list. -/
theorem build_exact (name : String) (constructible : Bool) (items : List DescriptorItem) :
    ((∃ d, build name constructible items = .ok d) ↔
      SoundIds (items.flatMap DescriptorItem.fields)) ∧
    (∀ d, build name constructible items = .ok d →
      d.name = name ∧ d.constructible = constructible ∧
      d.fields.Perm (items.flatMap DescriptorItem.fields) ∧
      d.fields.Pairwise (fun a b => a.id < b.id) ∧
      ∀ items', items'.Perm items →
        ∃ d', build name constructible items' = .ok d' ∧ d' = d ∧
          d'.fingerprint = d.fingerprint) ∧
    ∀ e, build name constructible items = .error e →
      FirstFault name (items.flatMap DescriptorItem.fields) e := by
  rcases build_cases name constructible items with
    ⟨fields, hok, hall, hsorted, hsound⟩ | ⟨e, he, hfault⟩
  · refine ⟨iff_of_true ⟨_, hok⟩ hsound, fun d hd => ?_, fun e he => ?_⟩
    · have hbuilt := hd
      rw [hok] at hd
      cases hd
      exact ⟨rfl, rfl, hall, hsorted, fun items' hperm => ⟨_, build_perm hbuilt hperm, rfl, rfl⟩⟩
    · rw [hok] at he
      cases he
  · refine ⟨iff_of_false ?_ hfault.not_soundIds, fun d hd => ?_, fun e' he' => ?_⟩
    · rintro ⟨d, hd⟩
      rw [he] at hd
      cases hd
    · rw [he] at hd
      cases hd
    · rw [he] at he'
      cases he'
      exact hfault

end TypeDescriptor

namespace Sample

/-- An integer field. -/
def intField (id : UInt16) (name : String) : FieldDescriptor :=
  ⟨id, name, .int, .int, none, {}⟩

/-- A type with one field, from which another type inherits. -/
def ancestor : TypeDescriptor :=
  ⟨"Base", [intField 0xFFFE "last"], false⟩

end Sample

namespace TypeDescriptor

/-- The field of the ancestor goes behind the own one, in either order of the items. A second field
with its id is refused, though a field with a reserved id is behind it. -/
theorem build_exact_inherited :
    build "Derived" true [.inherited Sample.ancestor, .own (Sample.intField 1 "first")] =
        .ok ⟨"Derived", [Sample.intField 1 "first", Sample.intField 0xFFFE "last"], true⟩ ∧
      build "Derived" true [.own (Sample.intField 1 "first"), .inherited Sample.ancestor] =
        .ok ⟨"Derived", [Sample.intField 1 "first", Sample.intField 0xFFFE "last"], true⟩ ∧
      FirstFault "Derived"
        [Sample.intField 0xFFFE "last", Sample.intField 0xFFFE "again", Sample.intField 0 "zero"]
        (.duplicateFieldId "Derived" 0xFFFE "last" "again") := by
  have hbuilt : build "Derived" true
      [.inherited Sample.ancestor, .own (Sample.intField 1 "first")] =
        .ok ⟨"Derived", [Sample.intField 1 "first", Sample.intField 0xFFFE "last"], true⟩ := rfl
  have hrefused : build "Derived" true
      [.inherited Sample.ancestor, .own (Sample.intField 0xFFFE "again"),
        .own (Sample.intField 0 "zero")] =
        .error (.duplicateFieldId "Derived" 0xFFFE "last" "again") := rfl
  obtain ⟨-, -, -, -, hperm⟩ := (build_exact _ _ _).2.1 _ hbuilt
  obtain ⟨d, hswapped, rfl, -⟩ := hperm _ (.swap _ _ [])
  exact ⟨hbuilt, hswapped, (build_exact _ _ _).2.2 _ hrefused⟩

end TypeDescriptor

end TaggedParcel
