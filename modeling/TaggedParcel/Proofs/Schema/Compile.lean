import Mathlib.Data.List.Nodup
import Mathlib.Tactic.Lemma
import TaggedParcel.Schema.Basic

set_option relaxedAutoImplicit false
set_option autoImplicit false

/-!
# Compiled declarations

A schema that was compiled has its fields under distinct ids, and every field has the layout
that the kind gives which it was registered with. Fields of ancestors are no exception.

## Main definitions

* `Schema.WellFormed` — schemas as compiling gives them.
* `Schema.Inherited` — properties that assembling a schema keeps.

## Main results

* `TypeDecl.compile_induction` — what assembling keeps, every compiled schema has.
* `TypeDecl.compile_wellFormed` — compiling gives well-formed schemas.
* `Schema.WellFormed.entry?_eq`, `Schema.WellFormed.resolve_eq` — what an entry of a well-formed
  schema is found by, and what its layout is.
-/

namespace TaggedParcel

/-- A schema as compiling gives it. -/
structure Schema.WellFormed (s : Schema) : Prop where
  /-- No two fields share an id. -/
  nodup : (s.descriptor.fields.map FieldDescriptor.id).Nodup
  /-- A kind under an id gives the layout of the field with the id. -/
  kinds : ∀ entry ∈ s.kinds, ∃ field ∈ s.descriptor.fields, field.id = entry.1 ∧
    entry.2.shape.resolve field.options = .ok field.semantic

/-- Where a result is obtained from another one, that one was obtained first. -/
lemma bind_eq_ok {ε α β : Type} {x : Except ε α} {next : α → Except ε β} {b : β}
    (h : (x >>= next) = .ok b) : ∃ a, x = .ok a ∧ next a = .ok b := by
  cases x with
  | ok a => exact ⟨a, rfl, h⟩
  | error e => cases h

/-- Of distinct keys, each is looked up with the value that it stands with. -/
lemma lookup_eq_some_of_mem {κ α : Type} [BEq κ] [LawfulBEq κ] {entries : List (κ × α)}
    (hnodup : (entries.map Prod.fst).Nodup) {entry : κ × α} (h : entry ∈ entries) :
    entries.lookup entry.1 = some entry.2 := by
  obtain ⟨front, back, rfl⟩ := List.append_of_mem h
  refine List.lookup_eq_some_iff.mpr ⟨front, back, rfl, fun other hother => ?_⟩
  rw [List.map_append, List.map_cons] at hnodup
  have hdiffer := (List.nodup_append.mp hnodup).2.2 other.1 (List.mem_map_of_mem hother) entry.1
    List.mem_cons_self
  exact bne_iff_ne.mpr hdiffer.symm

namespace TypeDescriptor

/-- Where a field is put does not matter for which fields there are. -/
lemma insertById_perm (field : FieldDescriptor) (fields : List FieldDescriptor) :
    (insertById field fields).Perm (field :: fields) := by
  induction fields with
  | nil => exact .refl _
  | cons other rest ih =>
    unfold insertById
    split
    · exact .refl _
    · exact (ih.cons other).trans (.swap field other rest)

/-- A field that is added has an id that no field before it has. -/
lemma addField_ok {name : String} {fields fields' : List FieldDescriptor} {field : FieldDescriptor}
    (h : addField name fields field = .ok fields') :
    fields'.Perm (field :: fields) ∧ field.id ∉ fields.map FieldDescriptor.id := by
  unfold addField at h
  split at h
  · cases h
  · split at h
    · cases h
    · cases h
      rename_i hnone
      refine ⟨insertById_perm field fields, fun hmem => ?_⟩
      obtain ⟨other, hother, hid⟩ := List.mem_map.mp hmem
      have hdiffer := List.find?_eq_none.mp hnone other hother
      exact hdiffer (beq_iff_eq.mpr hid)

/-- Fields that are added one after another are all there, under distinct ids, and no others. -/
lemma addFields_ok {name : String} {items fields fields' : List FieldDescriptor}
    (h : items.foldlM (addField name) fields = .ok fields')
    (hnodup : (fields.map FieldDescriptor.id).Nodup) :
    (fields'.map FieldDescriptor.id).Nodup ∧
      ∀ field, field ∈ fields' ↔ field ∈ items ∨ field ∈ fields := by
  induction items generalizing fields with
  | nil =>
    cases h
    exact ⟨hnodup, fun field => by simp⟩
  | cons field items ih =>
    rw [List.foldlM_cons] at h
    obtain ⟨added, hadd, hrest⟩ := bind_eq_ok h
    obtain ⟨hperm, hnew⟩ := addField_ok hadd
    have hids : (added.map FieldDescriptor.id).Nodup := by
      rw [(hperm.map FieldDescriptor.id).nodup_iff, List.map_cons, List.nodup_cons]
      exact ⟨hnew, hnodup⟩
    obtain ⟨hnodup', hmem⟩ := ih hrest hids
    refine ⟨hnodup', fun other => ?_⟩
    rw [hmem, hperm.mem_iff, List.mem_cons, List.mem_cons, or_left_comm, or_assoc]

end TypeDescriptor

namespace Sorted

variable {κ α : Type} {compare : κ → κ → Ordering}

/-- What is in a map after an insertion was inserted or was there before. -/
lemma mem_of_mem_insert {key : κ} {value : α} {entries : List (κ × α)} {entry : κ × α}
    (h : entry ∈ insert compare key value entries) : entry = (key, value) ∨ entry ∈ entries := by
  induction entries with
  | nil => exact .inl (List.mem_singleton.mp h)
  | cons other rest ih =>
    unfold insert at h
    split at h
    · exact List.mem_cons.mp h
    · rcases List.mem_cons.mp h with h | h
      · exact .inl h
      · exact .inr (List.mem_cons_of_mem other h)
    · rcases List.mem_cons.mp h with rfl | h
      · exact .inr List.mem_cons_self
      · rcases ih h with h | h
        · exact .inl h
        · exact .inr (List.mem_cons_of_mem other h)

/-- A map holds no pairs but those that it was made from. -/
lemma mem_of_mem_ofList {pairs : List (κ × α)} {entry : κ × α} (h : entry ∈ ofList compare pairs) :
    entry ∈ pairs := by
  have hfold : ∀ pairs entries : List (κ × α),
      entry ∈ pairs.foldl (fun entries pair => insert compare pair.1 pair.2 entries) entries →
        entry ∈ pairs ∨ entry ∈ entries := by
    intro pairs
    induction pairs with
    | nil => exact fun entries h => .inr h
    | cons pair rest ih =>
      intro entries h
      rcases ih _ h with h | h
      · exact .inl (List.mem_cons_of_mem pair h)
      · rcases mem_of_mem_insert h with rfl | h
        · exact .inl List.mem_cons_self
        · exact .inr h
  rcases hfold pairs [] h with h | h
  · exact h
  · cases h

end Sorted

namespace Registration

/-- Every answer is one of the results. -/
lemma mem_of_mapM_id {ε α : Type} {results : List (Except ε α)} {answers : List α}
    (h : results.mapM id = .ok answers) {a : α} (ha : a ∈ answers) : .ok a ∈ results := by
  induction results generalizing answers with
  | nil =>
    cases h
    cases ha
  | cons result rest ih =>
    rw [List.mapM_cons] at h
    obtain ⟨b, hb, h⟩ := bind_eq_ok h
    obtain ⟨others, hothers, h⟩ := bind_eq_ok h
    cases h
    rcases List.mem_cons.mp ha with rfl | ha
    · exact hb ▸ List.mem_cons_self
    · exact List.mem_cons_of_mem result (ih hothers ha)

/-- A field that a type adds itself is made as it was registered. -/
lemma mem_ownFields {registrations : List Registration}
    {own : List (FieldDescriptor × FieldKind)} (h : ownFields registrations = .ok own)
    {entry : FieldDescriptor × FieldKind} (hentry : entry ∈ own) :
    ∃ id name kind options field, .field id name kind options ∈ registrations ∧
      FieldDescriptor.make id name kind.shape options = .ok field ∧ entry = (field, kind) := by
  obtain ⟨registration, hmem, hown⟩ := List.mem_filterMap.mp (mem_of_mapM_id h hentry)
  cases registration with
  | inherit part base => cases hown
  | field id name kind options =>
    obtain ⟨field, hmake, hfield⟩ := bind_eq_ok (Option.some.inj hown)
    cases hfield
    exact ⟨id, name, kind, options, field, hmem, hmake, rfl⟩

/-- A field that a type adds itself has the layout that its kind gives. -/
lemma ownFields_resolve {registrations : List Registration}
    {own : List (FieldDescriptor × FieldKind)} (h : ownFields registrations = .ok own)
    {entry : FieldDescriptor × FieldKind} (hentry : entry ∈ own) :
    entry.2.shape.resolve entry.1.options = .ok entry.1.semantic := by
  obtain ⟨id, name, kind, options, field, -, hmake, rfl⟩ := mem_ownFields h hentry
  obtain ⟨layout, hlayout, hmake⟩ := bind_eq_ok hmake
  cases hmake
  exact hlayout

end Registration

/-- A schema that is assembled from well-formed schemas is well-formed. -/
lemma Schema.assemble_wellFormed {decl : TypeDecl} {ancestors : List Schema} {s : Schema}
    (hancestors : ∀ base ∈ ancestors, base.WellFormed)
    (h : Schema.assemble decl ancestors = .ok s) : s.WellFormed := by
  obtain ⟨own, hown, h⟩ := bind_eq_ok h
  obtain ⟨descriptor, hbuild, h⟩ := bind_eq_ok h
  obtain ⟨fields, hfields, hbuild⟩ := bind_eq_ok hbuild
  cases hbuild
  cases h
  obtain ⟨hnodup, hmem⟩ := TypeDescriptor.addFields_ok hfields List.nodup_nil
  refine ⟨hnodup, fun entry hentry => ?_⟩
  rcases List.mem_append.mp (Sorted.mem_of_mem_ofList hentry) with hentry | hentry
  · obtain ⟨base, hbase, hentry⟩ := List.mem_flatMap.mp hentry
    obtain ⟨field, hfield, hid, hresolve⟩ := (hancestors base hbase).kinds entry hentry
    refine ⟨field, (hmem field).mpr (.inl (List.mem_flatMap.mpr
      ⟨.inherited base.descriptor, ?_, hfield⟩)), hid, hresolve⟩
    exact List.mem_append_left _ (List.mem_map.mpr ⟨base, hbase, rfl⟩)
  · obtain ⟨added, hadded, rfl⟩ := List.mem_map.mp hentry
    refine ⟨added.1, (hmem added.1).mpr (.inl (List.mem_flatMap.mpr ⟨.own added.1, ?_, ?_⟩)), rfl,
      Registration.ownFields_resolve hown hadded⟩
    · exact List.mem_append_right _ (List.mem_map.mpr ⟨added, hadded, rfl⟩)
    · exact List.mem_singleton.mpr rfl

/-- What an assembled schema has if the schemas have it that it is assembled from. -/
def Schema.Inherited (P : Schema → Prop) : Prop :=
  ∀ (decl : TypeDecl) (ancestors : List Schema) (s : Schema),
    (∀ base ∈ ancestors, P base) → Schema.assemble decl ancestors = .ok s → P s

mutual

/-- What is inherited by assembled schemas, every compiled schema has. -/
lemma TypeDecl.compile_induction {P : Schema → Prop} (hassembled : Schema.Inherited P)
    (decl : TypeDecl) {s : Schema} (h : decl.compile = .ok s) : P s := by
  cases decl with
  | mk path rename registrations initial =>
    obtain ⟨ancestors, hancestors, hassemble⟩ := bind_eq_ok h
    exact hassembled _ ancestors s
      (Registration.compileAncestors_induction hassembled registrations hancestors) hassemble

/-- What is true of every assembled schema is true of the schemas of ancestors. -/
lemma Registration.compileAncestors_induction {P : Schema → Prop}
    (hassembled : Schema.Inherited P) (registrations : List Registration)
    {schemas : List Schema} (h : Registration.compileAncestors registrations = .ok schemas) :
    ∀ s ∈ schemas, P s := by
  cases registrations with
  | nil =>
    cases h
    simp
  | cons registration rest =>
    cases registration with
    | field id name kind options =>
      exact Registration.compileAncestors_induction hassembled rest h
    | inherit part base =>
      obtain ⟨schema, hschema, h⟩ := bind_eq_ok h
      obtain ⟨others, hothers, h⟩ := bind_eq_ok h
      cases h
      intro s hs
      rcases List.mem_cons.mp hs with rfl | hs
      · exact TypeDecl.compile_induction hassembled base hschema
      · exact Registration.compileAncestors_induction hassembled rest hothers s hs

end

/-- Compiling gives well-formed schemas. -/
theorem TypeDecl.compile_wellFormed (decl : TypeDecl) {s : Schema} (h : decl.compile = .ok s) :
    s.WellFormed :=
  TypeDecl.compile_induction (fun _ _ _ hancestors => Schema.assemble_wellFormed hancestors) decl h

/-- The schemas of declared types are their compiled declarations. -/
lemma Environment.ofTypes_compiled {types : List TypeDecl} {interfaces : InterfaceRegistry}
    {type : String} {s : Schema} (h : (ofTypes types interfaces).schemaOf type = .ok s) :
    ∃ decl ∈ types, decl.compile = .ok s := by
  have hschema : ((types.map fun decl => (decl.path, decl.compile)).lookup type).getD
      (.error (.unsupportedType (.object type))) = .ok s := h
  cases hlookup : (types.map fun decl => (decl.path, decl.compile)).lookup type with
  | none =>
    rw [hlookup] at hschema
    cases hschema
  | some result =>
    rw [hlookup] at hschema
    obtain ⟨front, back, hsplit, -⟩ := List.lookup_eq_some_iff.mp hlookup
    have hmem : (type, result) ∈ types.map fun decl => (decl.path, decl.compile) := by
      rw [hsplit]
      exact List.mem_append_right _ List.mem_cons_self
    obtain ⟨decl, hdecl, hsame⟩ := List.mem_map.mp hmem
    cases hsame
    exact ⟨decl, hdecl, hschema⟩

/-- The schemas of declared types are well-formed. -/
lemma Environment.ofTypes_wellFormed {types : List TypeDecl} {interfaces : InterfaceRegistry}
    {type : String} {s : Schema} (h : (ofTypes types interfaces).schemaOf type = .ok s) :
    s.WellFormed := by
  obtain ⟨decl, -, hcompile⟩ := ofTypes_compiled h
  exact decl.compile_wellFormed hcompile

namespace Schema.WellFormed

variable {s : Schema} (h : s.WellFormed) {entry : FieldDescriptor × FieldKind}

/-- An entry is a field with the kind that is registered under its id. -/
lemma mem_entries (hentry : entry ∈ s.entries) :
    entry.1 ∈ s.descriptor.fields ∧ s.kinds.lookup entry.1.id = some entry.2 := by
  obtain ⟨field, hfield, hkind⟩ := List.mem_filterMap.mp hentry
  obtain ⟨kind, hlookup, rfl⟩ := Option.map_eq_some_iff.mp hkind
  exact ⟨hfield, hlookup⟩

/-- The kind of an entry is registered under its id. -/
lemma mem_kinds (hentry : entry ∈ s.entries) : (entry.1.id, entry.2) ∈ s.kinds := by
  obtain ⟨front, back, hsplit, -⟩ := List.lookup_eq_some_iff.mp (mem_entries hentry).2
  rw [hsplit]
  exact List.mem_append_right _ List.mem_cons_self

include h

/-- No two entries share an id. -/
lemma entries_nodup : (s.entries.map fun entry => entry.1.id).Nodup := by
  have hsub : (s.entries.map fun entry => entry.1.id).Sublist
      (s.descriptor.fields.map FieldDescriptor.id) := by
    unfold Schema.entries
    induction s.descriptor.fields with
    | nil => exact .slnil
    | cons field rest ih =>
      rw [List.filterMap_cons]
      cases s.kinds.lookup field.id with
      | none => exact ih.cons _
      | some kind => exact ih.cons_cons _
  exact hsub.nodup h.nodup

/-- Two fields with one id are one field. -/
lemma eq_of_id_eq {field other : FieldDescriptor} (hfield : field ∈ s.descriptor.fields)
    (hother : other ∈ s.descriptor.fields) (hid : field.id = other.id) : field = other :=
  List.inj_on_of_nodup_map h.nodup hfield hother hid

/-- An entry is found by its id. -/
lemma entry?_eq (hentry : entry ∈ s.entries) : s.entry? entry.1.id = some entry := by
  obtain ⟨hfield, hkind⟩ := mem_entries hentry
  cases hfind : s.descriptor.field? entry.1.id with
  | none =>
    have hdiffer := List.find?_eq_none.mp hfind entry.1 hfield
    exact absurd (beq_iff_eq.mpr rfl) hdiffer
  | some field =>
    have hid := List.find?_some hfind
    have hsame := h.eq_of_id_eq (List.mem_of_find?_eq_some hfind) hfield (beq_iff_eq.mp hid)
    simp [Schema.entry?, hfind, hkind, hsame]

/-- The layout of an entry is the one that its kind gives. -/
lemma resolve_eq (hentry : entry ∈ s.entries) :
    entry.2.shape.resolve entry.1.options = .ok entry.1.semantic := by
  obtain ⟨field, hfield, hid, hresolve⟩ := h.kinds _ (mem_kinds hentry)
  rw [← h.eq_of_id_eq hfield (mem_entries hentry).1 hid]
  exact hresolve

end Schema.WellFormed

end TaggedParcel
