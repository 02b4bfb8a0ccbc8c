import TaggedParcel.Proofs.Schema.Compile

set_option relaxedAutoImplicit false
set_option autoImplicit false

/-!
# The order of fields

A compiled schema lists its fields in ascending order of their ids, whatever the order was in
which they were registered or taken over, and every field in it is registered with a kind.

## Main definitions

* `Schema.Ordered` — schemas in ascending order whose fields all have a kind.

## Main results

* `TypeDescriptor.addFields_ascending` — adding fields keeps the order.
* `TypeDecl.compile_ordered` — compiling gives ordered schemas.
* `Schema.Ordered.entries_fields`, `Schema.Ordered.entries_ascending` — the entries of an ordered
  schema are its fields, in ascending order.
-/

namespace TaggedParcel

/-- A schema with its fields in ascending order, all of them with a kind. -/
structure Schema.Ordered (s : Schema) : Prop where
  /-- Later fields have greater ids. -/
  ascending : s.descriptor.fields.Pairwise fun a b => a.id < b.id
  /-- A kind is registered under the id of every field. -/
  registered : ∀ field ∈ s.descriptor.fields, field.id ∈ s.kinds.map Prod.fst

namespace TypeDescriptor

/-- A field with a new id is put where it belongs. -/
lemma insertById_ascending {field : FieldDescriptor} {fields : List FieldDescriptor}
    (h : fields.Pairwise fun a b => a.id < b.id) (hnew : field.id ∉ fields.map FieldDescriptor.id) :
    (insertById field fields).Pairwise fun a b => a.id < b.id := by
  induction fields with
  | nil => exact List.pairwise_singleton _ _
  | cons other rest ih =>
    obtain ⟨hother, hrest⟩ := List.pairwise_cons.mp h
    rw [List.map_cons, List.mem_cons, not_or] at hnew
    unfold insertById
    split
    case isTrue hlt =>
      refine List.pairwise_cons.mpr ⟨fun a ha => ?_, h⟩
      rcases List.mem_cons.mp ha with rfl | ha
      · exact hlt
      · exact UInt16.lt_trans hlt (hother a ha)
    case isFalse hnlt =>
      have hlt : other.id < field.id :=
        UInt16.lt_of_le_of_ne (UInt16.not_lt.mp hnlt) fun hsame => hnew.1 hsame.symm
      refine List.pairwise_cons.mpr ⟨fun a ha => ?_, ih hrest hnew.2⟩
      rcases List.mem_cons.mp ((insertById_perm field rest).mem_iff.mp ha) with rfl | ha
      · exact hlt
      · exact hother a ha

/-- Adding fields one after another keeps them in ascending order. -/
lemma addFields_ascending {name : String} {items fields fields' : List FieldDescriptor}
    (h : items.foldlM (addField name) fields = .ok fields')
    (hfields : fields.Pairwise fun a b => a.id < b.id) :
    fields'.Pairwise fun a b => a.id < b.id := by
  induction items generalizing fields with
  | nil =>
    cases h
    exact hfields
  | cons field items ih =>
    rw [List.foldlM_cons] at h
    obtain ⟨added, hadd, hrest⟩ := bind_eq_ok h
    refine ih hrest ?_
    obtain ⟨-, hnew⟩ := addField_ok hadd
    unfold addField at hadd
    split at hadd
    · cases hadd
    · split at hadd
      · cases hadd
      · cases hadd
        exact insertById_ascending hfields hnew

end TypeDescriptor

namespace Sorted

variable {κ α : Type} {compare : κ → κ → Ordering} [Std.LawfulEqCmp compare]

/-- Putting a value under a key keeps the keys that there are, and adds this one. -/
lemma mem_keys_insert {key : κ} {value : α} {entries : List (κ × α)} {id : κ} :
    id ∈ (insert compare key value entries).map Prod.fst ↔
      id = key ∨ id ∈ entries.map Prod.fst := by
  induction entries with
  | nil => simp [insert]
  | cons entry rest ih =>
    unfold insert
    split
    · simp
    · rename_i heq
      have hkey : key = entry.1 := Std.LawfulEqCmp.eq_of_compare heq
      rw [List.map_cons, List.map_cons, List.mem_cons, List.mem_cons, ← hkey]
      exact or_self_left.symm
    · rw [List.map_cons, List.map_cons, List.mem_cons, List.mem_cons, ih, or_left_comm]

/-- A map has a value under every key that it was made from. -/
lemma mem_keys_ofList {pairs : List (κ × α)} {id : κ} (h : id ∈ pairs.map Prod.fst) :
    id ∈ (ofList compare pairs).map Prod.fst := by
  have hfold : ∀ pairs entries : List (κ × α),
      id ∈ pairs.map Prod.fst ∨ id ∈ entries.map Prod.fst →
        id ∈ (pairs.foldl (fun entries pair => insert compare pair.1 pair.2 entries) entries).map
          Prod.fst := by
    intro pairs
    induction pairs with
    | nil => exact fun entries h => h.resolve_left (List.not_mem_nil)
    | cons pair rest ih =>
      intro entries h
      refine ih _ ?_
      rw [mem_keys_insert]
      rw [List.map_cons, List.mem_cons] at h
      rcases h with (h | h) | h
      · exact .inr (.inl h)
      · exact .inl h
      · exact .inr (.inr h)
  exact hfold pairs [] (.inl h)

end Sorted

/-- A schema that is assembled from ordered schemas is ordered. -/
lemma Schema.assemble_ordered {decl : TypeDecl} {ancestors : List Schema} {s : Schema}
    (hancestors : ∀ base ∈ ancestors, base.Ordered)
    (h : Schema.assemble decl ancestors = .ok s) : s.Ordered := by
  obtain ⟨own, hown, h⟩ := bind_eq_ok h
  obtain ⟨descriptor, hbuild, h⟩ := bind_eq_ok h
  obtain ⟨fields, hfields, hbuild⟩ := bind_eq_ok hbuild
  cases hbuild
  cases h
  refine ⟨TypeDescriptor.addFields_ascending hfields .nil, fun field hfield => ?_⟩
  obtain ⟨-, hmem⟩ := TypeDescriptor.addFields_ok hfields List.nodup_nil
  have hitem := ((hmem field).mp hfield).resolve_right List.not_mem_nil
  refine Sorted.mem_keys_ofList ?_
  rw [List.map_append, List.mem_append]
  obtain ⟨item, hitem, hfield⟩ := List.mem_flatMap.mp hitem
  rcases List.mem_append.mp hitem with hitem | hitem
  · obtain ⟨base, hbase, rfl⟩ := List.mem_map.mp hitem
    obtain ⟨entry, hentry, hid⟩ := List.mem_map.mp ((hancestors base hbase).registered field hfield)
    exact .inl (List.mem_map.mpr ⟨entry, List.mem_flatMap.mpr ⟨base, hbase, hentry⟩, hid⟩)
  · obtain ⟨added, hadded, rfl⟩ := List.mem_map.mp hitem
    cases List.mem_singleton.mp hfield
    rw [List.map_map]
    exact .inr (List.mem_map.mpr ⟨added, hadded, rfl⟩)

/-- Compiling gives ordered schemas. -/
theorem TypeDecl.compile_ordered (decl : TypeDecl) {s : Schema} (h : decl.compile = .ok s) :
    s.Ordered :=
  TypeDecl.compile_induction (fun _ _ _ hancestors => Schema.assemble_ordered hancestors) decl h

/-- The schemas of declared types are ordered. -/
lemma Environment.ofTypes_ordered {types : List TypeDecl} {interfaces : InterfaceRegistry}
    {type : String} {s : Schema} (h : (ofTypes types interfaces).schemaOf type = .ok s) :
    s.Ordered := by
  obtain ⟨decl, -, hcompile⟩ := ofTypes_compiled h
  exact decl.compile_ordered hcompile

namespace Schema.Ordered

variable {s : Schema} (h : s.Ordered)
include h

/-- The entries are the fields, each of them with its kind. -/
lemma entries_fields : s.entries.map Prod.fst = s.descriptor.fields := by
  have hkinds : ∀ field ∈ s.descriptor.fields, (s.kinds.lookup field.id).isSome := by
    intro field hfield
    obtain ⟨entry, hentry, hid⟩ := List.mem_map.mp (h.registered field hfield)
    exact List.lookup_isSome_iff.mpr ⟨entry, hentry, beq_iff_eq.mpr hid.symm⟩
  unfold Schema.entries
  generalize s.descriptor.fields = fields at hkinds
  induction fields with
  | nil => rfl
  | cons field rest ih =>
    obtain ⟨kind, hkind⟩ := Option.isSome_iff_exists.mp (hkinds field List.mem_cons_self)
    rw [List.filterMap_cons, hkind]
    dsimp only [Option.map_some]
    rw [List.map_cons, ih fun other hother => hkinds other (List.mem_cons_of_mem _ hother)]

/-- Later entries have greater ids. -/
lemma entries_ascending : s.entries.Pairwise fun a b => a.1.id < b.1.id := by
  have hfields := h.ascending
  rw [← h.entries_fields, List.pairwise_map] at hfields
  exact hfields

end Schema.Ordered

end TaggedParcel
