import TaggedParcel.Proofs.Descriptor.Build
import TaggedParcel.Proofs.Schema.Order
import TaggedParcel.Proofs.Value.Bounds

set_option relaxedAutoImplicit false
set_option autoImplicit false

/-!
# No registration is lost

The fields of a compiled schema and the kinds that they were registered with are collected apart
from each other, and fields without a kind are passed over when objects are written or read. There
are none: the entries of a schema are all fields that its type registers or takes over from
ancestors, each of them once. The order of the registrations makes no difference to a schema.

## Main definitions

* `TypeDecl.registered` — the fields that a type registers itself or takes over from ancestors.
* `Schema.Bound` — schemas in which fields and kinds belong together.
* `Schema.Covers` — schemas whose entries are given registrations.

## Main results

* `Sorted.ofList_perm` — a map of distinct keys holds just the pairs that it was made from.
* `Schema.assemble_cases` — the step: what an assembled schema is made of.
* `TypeDecl.compile_bound`, `TypeDecl.compile_covers` — so compiled schemas are bound, and cover
  what was registered.
* `TypeDecl.compile_perm` — registrations in another order give the same schema.
-/

namespace TaggedParcel

/-! ## Maps of distinct keys -/

namespace Sorted

variable {κ α : Type} {compare : κ → κ → Ordering}

/-- Two lists in ascending order that hold the same pairs are the same list. -/
lemma Ascending.eq_of_perm [Std.TransCmp compare] {entries entries' : List (κ × α)}
    (h : Ascending compare entries) (h' : Ascending compare entries')
    (hperm : entries.Perm entries') : entries = entries' := by
  refine List.Perm.eq_of_pairwise (fun a b _ _ hab hba => ?_) h h' hperm
  rw [Std.OrientedCmp.gt_iff_lt] at hab
  exact absurd (hab.symm.trans hba) (by decide)

variable [Std.LawfulEqCmp compare]

/-- A value under a new key replaces nothing. -/
lemma insert_perm {key : κ} {entries : List (κ × α)} (hnew : key ∉ entries.map Prod.fst)
    (value : α) : (insert compare key value entries).Perm ((key, value) :: entries) := by
  induction entries with
  | nil => exact .refl _
  | cons entry rest ih =>
    rw [List.map_cons, List.mem_cons, not_or] at hnew
    unfold insert
    split
    · exact .refl _
    · rename_i hcompare
      exact absurd (Std.LawfulEqCmp.eq_of_compare hcompare) hnew.1
    · exact ((ih hnew.2).cons entry).trans (.swap (key, value) entry rest)

/-- A map of distinct keys holds just the pairs that it was made from. -/
lemma ofList_perm {pairs : List (κ × α)} (hnodup : (pairs.map Prod.fst).Nodup) :
    (ofList compare pairs).Perm pairs := by
  -- the pairs that are yet to come have keys that the map does not have
  have hfold : ∀ pairs entries : List (κ × α), ((pairs ++ entries).map Prod.fst).Nodup →
      (pairs.foldl (fun entries pair => insert compare pair.1 pair.2 entries) entries).Perm
        (pairs ++ entries) := by
    intro pairs
    induction pairs with
    | nil => exact fun entries _ => .refl _
    | cons pair rest ih =>
      intro entries hnodup
      rw [List.cons_append, List.map_cons, List.nodup_cons, List.map_append, List.mem_append,
        not_or] at hnodup
      have hinsert : (insert compare pair.1 pair.2 entries).Perm (pair :: entries) :=
        insert_perm hnodup.1.2 pair.2
      have hbehind : (rest ++ insert compare pair.1 pair.2 entries).Perm
          (pair :: rest ++ entries) := (hinsert.append_left rest).trans List.perm_middle
      refine (ih _ ?_).trans hbehind
      rw [(hbehind.map Prod.fst).nodup_iff, List.cons_append, List.map_cons, List.nodup_cons,
        List.map_append, List.mem_append, not_or]
      exact hnodup
  have hall := hfold pairs [] (by rwa [List.append_nil])
  rwa [List.append_nil] at hall

/-- The map of distinct keys does not depend on the order of the pairs. -/
lemma ofList_eq_of_perm [Std.TransCmp compare] {pairs pairs' : List (κ × α)}
    (hnodup : (pairs.map Prod.fst).Nodup) (hperm : pairs'.Perm pairs) :
    ofList compare pairs' = ofList compare pairs := by
  refine (ascending_ofList pairs').eq_of_perm (ascending_ofList pairs) ?_
  have hnodup' : (pairs'.map Prod.fst).Nodup := (hperm.map Prod.fst).nodup_iff.mpr hnodup
  exact (ofList_perm hnodup').trans (hperm.trans (ofList_perm hnodup).symm)

end Sorted

/-! ## What is registered -/

/-- A field as a type registers it. -/
structure RegisteredField where
  /-- What the field is known by in the bytes. -/
  id : UInt16
  /-- What it is known by in messages. -/
  name : String
  /-- How it is registered. -/
  kind : FieldKind
  /-- How it is to be carried. -/
  options : FieldOptions

/-- An entry of a schema, as it was registered. -/
def RegisteredField.ofEntry (entry : FieldDescriptor × FieldKind) : RegisteredField :=
  ⟨entry.1.id, entry.1.name, entry.2, entry.1.options⟩

mutual

/-- The fields that a type registers itself or takes over from ancestors. -/
def TypeDecl.registered : TypeDecl → List RegisteredField
  | ⟨_, _, registrations, _⟩ => Registration.registered registrations

/-- The fields of registrations, and those of the ancestors among them. -/
def Registration.registered : List Registration → List RegisteredField
  | [] => []
  | .field id name kind options :: rest => ⟨id, name, kind, options⟩ :: Registration.registered rest
  | .inherit _ base :: rest => base.registered ++ Registration.registered rest

end

/-- A schema in which fields and kinds belong together. -/
structure Schema.Bound (s : Schema) : Prop extends s.Ordered where
  /-- There are no kinds but those of the entries, in the same order. -/
  kinds_eq : s.kinds = s.entries.map fun entry => (entry.1.id, entry.2)
  /-- Each field is what its registration makes of it. -/
  made : ∀ entry ∈ s.entries,
    FieldDescriptor.make entry.1.id entry.1.name entry.2.shape entry.1.options = .ok entry.1

/-- A schema whose entries are just the given registrations, each of them once. -/
structure Schema.Covers (s : Schema) (fields : List RegisteredField) : Prop where
  /-- There are kinds for just the ids of the descriptor. -/
  bound : s.kinds.map Prod.fst = s.descriptor.fields.map FieldDescriptor.id
  /-- No field of the descriptor is passed over. -/
  visited : s.entries.map Prod.fst = s.descriptor.fields
  /-- The entries are in strictly ascending order. -/
  ascending : s.entries.Pairwise fun a b => a.1.id < b.1.id
  /-- The entries are what was registered. -/
  registered : (s.entries.map RegisteredField.ofEntry).Perm fields
  /-- Each field is what its registration makes of it. -/
  made : ∀ entry ∈ s.entries,
    FieldDescriptor.make entry.1.id entry.1.name entry.2.shape entry.1.options = .ok entry.1
  /-- An entry is found under its id. -/
  found : ∀ id entry, s.entry? id = some entry ↔ entry ∈ s.entries ∧ entry.1.id = id
  /-- Something is found under the registered ids and no others. -/
  known : ∀ id, (s.entry? id).isSome ↔ id ∈ fields.map RegisteredField.id

/-! ## Lists of results -/

section Results

variable {ε α : Type}

/-- Results are answers if the first one is an answer and the others are. -/
lemma mapM_id_cons_eq_ok_iff {result : Except ε α} {rest : List (Except ε α)} {answers : List α} :
    (result :: rest).mapM id = .ok answers ↔
      ∃ a others, result = .ok a ∧ rest.mapM id = .ok others ∧ answers = a :: others := by
  rw [List.mapM_cons]
  constructor
  · intro h
    obtain ⟨a, ha, h⟩ := bind_eq_ok h
    obtain ⟨others, hothers, h⟩ := bind_eq_ok h
    cases h
    exact ⟨a, others, ha, hothers, rfl⟩
  · rintro ⟨a, others, rfl, hothers, rfl⟩
    rw [hothers]
    rfl

/-- If no result is a failure, none is in another order either. -/
lemma mapM_id_perm {results results' : List (Except ε α)} (hperm : results.Perm results')
    {answers : List α} (h : results.mapM id = .ok answers) :
    ∃ answers', results'.mapM id = .ok answers' ∧ answers'.Perm answers := by
  induction hperm generalizing answers with
  | nil => exact ⟨answers, h, .refl _⟩
  | cons result _ ih =>
    obtain ⟨a, others, hresult, hothers, rfl⟩ := mapM_id_cons_eq_ok_iff.mp h
    obtain ⟨others', hothers', hperm⟩ := ih hothers
    exact ⟨a :: others', mapM_id_cons_eq_ok_iff.mpr ⟨a, others', hresult, hothers', rfl⟩,
      hperm.cons a⟩
  | swap first second rest =>
    obtain ⟨b, others, hsecond, hrest, rfl⟩ := mapM_id_cons_eq_ok_iff.mp h
    obtain ⟨a, others, hfirst, hothers, rfl⟩ := mapM_id_cons_eq_ok_iff.mp hrest
    exact ⟨a :: b :: others, mapM_id_cons_eq_ok_iff.mpr ⟨a, b :: others, hfirst,
      mapM_id_cons_eq_ok_iff.mpr ⟨b, others, hsecond, hothers, rfl⟩, rfl⟩, .swap b a others⟩
  | trans _ _ ih ih' =>
    obtain ⟨answers', h', hperm⟩ := ih h
    obtain ⟨answers'', h'', hperm'⟩ := ih' h'
    exact ⟨answers'', h'', hperm'.trans hperm⟩

end Results

namespace Registration

variable {registrations registrations' : List Registration}

/-- The schema of the ancestor of a registration. -/
def ancestor? : Registration → Option (Except SchemaError Schema)
  | .field _ _ _ _ => none
  | .inherit _ base => some base.compile

/-- Ancestors are compiled one by one. -/
lemma compileAncestors_eq (registrations : List Registration) :
    compileAncestors registrations = (registrations.filterMap ancestor?).mapM id := by
  induction registrations with
  | nil => rfl
  | cons registration rest ih =>
    cases registration with
    | field id name kind options => exact ih
    | inherit part base =>
      rw [compileAncestors, ih, List.filterMap_cons]
      dsimp only [ancestor?]
      rw [List.mapM_cons]
      rfl

/-- Registrations in another order have the same ancestors. -/
lemma compileAncestors_perm (hperm : registrations'.Perm registrations) {ancestors : List Schema}
    (h : compileAncestors registrations = .ok ancestors) :
    ∃ ancestors', compileAncestors registrations' = .ok ancestors' ∧
      ancestors'.Perm ancestors := by
  rw [compileAncestors_eq] at h ⊢
  exact mapM_id_perm (hperm.symm.filterMap ancestor?) h

/-- Registrations in another order add the same fields. -/
lemma ownFields_perm (hperm : registrations'.Perm registrations)
    {own : List (FieldDescriptor × FieldKind)} (h : ownFields registrations = .ok own) :
    ∃ own', ownFields registrations' = .ok own' ∧ own'.Perm own :=
  mapM_id_perm (hperm.symm.filterMap ownField?) h

/-- The field of a registration in front is made first. -/
lemma ownFields_field {id : UInt16} {name : String} {kind : FieldKind} {options : FieldOptions}
    {rest : List Registration} {own : List (FieldDescriptor × FieldKind)}
    (h : ownFields (.field id name kind options :: rest) = .ok own) :
    ∃ field others, FieldDescriptor.make id name kind.shape options = .ok field ∧
      ownFields rest = .ok others ∧ own = (field, kind) :: others := by
  obtain ⟨entry, others, hentry, hothers, rfl⟩ := mapM_id_cons_eq_ok_iff.mp h
  obtain ⟨field, hmake, hentry⟩ := bind_eq_ok hentry
  cases hentry
  exact ⟨field, others, hmake, hothers, rfl⟩

end Registration

/-- A field that is made has the id, the name and the options that it was made with. -/
lemma FieldDescriptor.make_ok {id : UInt16} {name : String} {declared : Shape}
    {options : FieldOptions} {field : FieldDescriptor}
    (h : make id name declared options = .ok field) :
    field.id = id ∧ field.name = name ∧ field.options = options := by
  obtain ⟨layout, -, h⟩ := bind_eq_ok h
  cases h
  exact ⟨rfl, rfl, rfl⟩

/-- A field that a type adds itself is made of its own id, name and options. -/
lemma Registration.ownFields_made {registrations : List Registration}
    {own : List (FieldDescriptor × FieldKind)} (h : ownFields registrations = .ok own)
    {entry : FieldDescriptor × FieldKind} (hentry : entry ∈ own) :
    FieldDescriptor.make entry.1.id entry.1.name entry.2.shape entry.1.options = .ok entry.1 := by
  obtain ⟨id, name, kind, options, field, -, hmake, rfl⟩ := mem_ownFields h hentry
  obtain ⟨rfl, rfl, rfl⟩ := FieldDescriptor.make_ok hmake
  exact hmake

/-! ## Assembling -/

namespace Schema

variable {decl : TypeDecl} {ancestors ancestors' : List Schema} {s : Schema}
  {own own' pieces : List (FieldDescriptor × FieldKind)}

/-- The entries that a schema is assembled from: those of the ancestors, and the type's own. -/
def parts (ancestors : List Schema) (own : List (FieldDescriptor × FieldKind)) :
    List (FieldDescriptor × FieldKind) :=
  ancestors.flatMap entries ++ own

/-- What the descriptor of an assembled schema is built of. -/
def items (ancestors : List Schema) (own : List (FieldDescriptor × FieldKind)) :
    List DescriptorItem :=
  ancestors.map (fun base => .inherited base.descriptor) ++ own.map (fun entry => .own entry.1)

/-- A kind under the id of its field. -/
def keyed (entry : FieldDescriptor × FieldKind) : UInt16 × FieldKind :=
  (entry.1.id, entry.2)

/-- A schema is assembled from fields that have a layout and ids that are sound. -/
lemma assemble_eq_ok_iff :
    assemble decl ancestors = .ok s ↔
      ∃ own descriptor, Registration.ownFields decl.registrations = .ok own ∧
        TypeDescriptor.build decl.schemaName decl.initial.isSome (items ancestors own) =
          .ok descriptor ∧
        s = ⟨descriptor, Sorted.ofList compare (ancestors.flatMap kinds ++ own.map keyed),
          decl.initial⟩ := by
  constructor
  · intro h
    obtain ⟨own, hown, h⟩ := bind_eq_ok h
    obtain ⟨descriptor, hbuild, h⟩ := bind_eq_ok h
    cases h
    exact ⟨own, descriptor, hown, hbuild, rfl⟩
  · rintro ⟨own, descriptor, hown, hbuild, rfl⟩
    unfold items at hbuild
    unfold assemble
    rw [hown]
    dsimp only [bind, Except.bind]
    rw [hbuild]
    rfl

/-- The fields of bound ancestors are those of their entries. -/
lemma fields_items (hancestors : ∀ base ∈ ancestors, base.Bound) :
    (items ancestors own).flatMap DescriptorItem.fields =
      (parts ancestors own).map Prod.fst := by
  have hinherited : ancestors.flatMap (fun base => base.descriptor.fields) =
      ancestors.flatMap fun base => base.entries.map Prod.fst :=
    List.flatMap_congr fun base hbase => (hancestors base hbase).entries_fields.symm
  unfold items parts
  rw [List.flatMap_append, List.flatMap_map, List.flatMap_map, List.map_append, List.map_flatMap,
    ← hinherited]
  congr 1
  exact List.map_eq_flatMap.symm

/-- The kinds of bound ancestors are those of their entries. -/
lemma keyed_parts (hancestors : ∀ base ∈ ancestors, base.Bound) :
    ancestors.flatMap kinds ++ own.map keyed = (parts ancestors own).map keyed := by
  have hinherited : ancestors.flatMap kinds =
      ancestors.flatMap fun base => base.entries.map keyed :=
    List.flatMap_congr fun base hbase => (hancestors base hbase).kinds_eq
  unfold parts
  rw [List.map_append, List.map_flatMap, hinherited]

/-- What goes into a descriptor has distinct ids. -/
lemma ids_nodup (hancestors : ∀ base ∈ ancestors, base.Bound) {name : String}
    {constructible : Bool} {d : TypeDescriptor}
    (h : TypeDescriptor.build name constructible (items ancestors own) = .ok d) :
    (((parts ancestors own).map keyed).map Prod.fst).Nodup := by
  obtain ⟨-, -, -, -, hsound⟩ := TypeDescriptor.build_ok h
  have hids := hsound.nodup
  rw [fields_items hancestors, List.map_map] at hids
  rwa [List.map_map]

/-- Where the fields and the kinds of a schema are those of some pieces, its entries are these. -/
lemma entries_perm (hfields : s.descriptor.fields.Perm (pieces.map Prod.fst))
    (hnodup : ((pieces.map keyed).map Prod.fst).Nodup)
    (hkinds : s.kinds = Sorted.ofList compare (pieces.map keyed)) : s.entries.Perm pieces := by
  have hperm : s.kinds.Perm (pieces.map keyed) := hkinds ▸ Sorted.ofList_perm hnodup
  have hentry : ∀ entry ∈ pieces,
      (s.kinds.lookup entry.1.id).map (fun kind => (entry.1, kind)) = some entry := by
    intro entry hentry
    have hmem : keyed entry ∈ s.kinds := hperm.mem_iff.mpr (List.mem_map_of_mem hentry)
    have hlookup : s.kinds.lookup entry.1.id = some entry.2 :=
      lookup_eq_some_of_mem ((hperm.map Prod.fst).nodup_iff.mpr hnodup) hmem
    rw [hlookup]
    rfl
  have hsame : (pieces.map Prod.fst).filterMap (fun field =>
      (s.kinds.lookup field.id).map fun kind => (field, kind)) = pieces := by
    rw [List.filterMap_map]
    exact (List.filterMap_congr hentry).trans List.filterMap_some
  exact (hfields.filterMap _).trans (.of_eq hsame)

/-- What an assembled schema is made of: the entries of its ancestors and fields of its own. -/
lemma assemble_cases (hancestors : ∀ base ∈ ancestors, base.Bound)
    (h : assemble decl ancestors = .ok s) :
    ∃ own, Registration.ownFields decl.registrations = .ok own ∧
      s.kinds.Perm ((parts ancestors own).map keyed) ∧ Sorted.Ascending compare s.kinds ∧
      s.entries.Perm (parts ancestors own) := by
  obtain ⟨own, descriptor, hown, hbuild, rfl⟩ := assemble_eq_ok_iff.mp h
  obtain ⟨fields, rfl, hfields, -⟩ := TypeDescriptor.build_ok hbuild
  rw [fields_items hancestors] at hfields
  rw [keyed_parts hancestors]
  have hnodup := ids_nodup hancestors hbuild
  exact ⟨own, hown, Sorted.ofList_perm hnodup, Sorted.ascending_ofList _,
    entries_perm hfields hnodup rfl⟩

/-- A schema that is assembled from bound schemas is bound. -/
lemma assemble_bound (hancestors : ∀ base ∈ ancestors, base.Bound)
    (h : assemble decl ancestors = .ok s) : s.Bound := by
  have hordered := assemble_ordered (fun base hbase => (hancestors base hbase).toOrdered) h
  obtain ⟨own, hown, hkinds, hsorted, hentries⟩ := assemble_cases hancestors h
  refine ⟨hordered, ?_, fun entry hentry => ?_⟩
  · have hascending : Sorted.Ascending compare (s.entries.map keyed) :=
      List.pairwise_map.mpr (hordered.entries_ascending.imp Std.compare_eq_gt.mpr)
    exact hsorted.eq_of_perm hascending (hkinds.trans (hentries.map keyed).symm)
  · rcases List.mem_append.mp (hentries.mem_iff.mp hentry) with hentry | hentry
    · obtain ⟨base, hbase, hentry⟩ := List.mem_flatMap.mp hentry
      exact (hancestors base hbase).made entry hentry
    · exact Registration.ownFields_made hown hentry

/-- A schema does not depend on the order of the registrations and ancestors that it is assembled
from. -/
lemma assemble_perm {registrations : List Registration}
    (hancestors : ∀ base ∈ ancestors, base.Bound) (h : assemble decl ancestors = .ok s)
    (hregistrations : registrations.Perm decl.registrations)
    (hperm : ancestors'.Perm ancestors) :
    assemble { decl with registrations := registrations } ancestors' = .ok s := by
  obtain ⟨own, descriptor, hown, hbuild, rfl⟩ := assemble_eq_ok_iff.mp h
  obtain ⟨own', hown', hsame⟩ := Registration.ownFields_perm hregistrations hown
  have hitems : (items ancestors' own').Perm (items ancestors own) :=
    (hperm.map _).append (hsame.map _)
  have hkinds : (ancestors'.flatMap kinds ++ own'.map keyed).Perm
      (ancestors.flatMap kinds ++ own.map keyed) :=
    (hperm.flatMap_right kinds).append (hsame.map keyed)
  have hnodup := ids_nodup hancestors hbuild
  rw [← keyed_parts hancestors] at hnodup
  refine assemble_eq_ok_iff.mpr
    ⟨own', descriptor, hown', TypeDescriptor.build_perm hbuild hitems, ?_⟩
  rw [Sorted.ofList_eq_of_perm hnodup hkinds]

end Schema

/-! ## Compiling -/

/-- Compiling gives bound schemas. -/
theorem TypeDecl.compile_bound (decl : TypeDecl) {s : Schema} (h : decl.compile = .ok s) :
    s.Bound :=
  TypeDecl.compile_induction (fun _ _ _ hancestors => Schema.assemble_bound hancestors) decl h

/-- The ancestors among registrations are compiled to bound schemas. -/
lemma Registration.compileAncestors_bound {registrations : List Registration}
    {ancestors : List Schema} (h : compileAncestors registrations = .ok ancestors) :
    ∀ base ∈ ancestors, base.Bound :=
  compileAncestors_induction (fun _ _ _ hancestors => Schema.assemble_bound hancestors)
    registrations h

/-- Registrations in another order give the same schema. -/
theorem TypeDecl.compile_perm {decl : TypeDecl} {s : Schema} (h : decl.compile = .ok s)
    {registrations : List Registration} (hperm : registrations.Perm decl.registrations) :
    TypeDecl.compile { decl with registrations := registrations } = .ok s := by
  cases decl with
  | mk path rename given initial =>
    obtain ⟨ancestors, hancestors, hassemble⟩ := bind_eq_ok h
    obtain ⟨ancestors', hancestors', hsame⟩ := Registration.compileAncestors_perm hperm hancestors
    rw [compile, hancestors']
    exact Schema.assemble_perm (Registration.compileAncestors_bound hancestors) hassemble hperm
      hsame

mutual

/-- The entries of a compiled schema are what its type registers or takes over. -/
lemma TypeDecl.compile_registered (decl : TypeDecl) {s : Schema} (h : decl.compile = .ok s) :
    (s.entries.map RegisteredField.ofEntry).Perm decl.registered := by
  cases decl with
  | mk path rename registrations initial =>
    obtain ⟨ancestors, hancestors, hassemble⟩ := bind_eq_ok h
    obtain ⟨own, hown, -, -, hentries⟩ :=
      Schema.assemble_cases (Registration.compileAncestors_bound hancestors) hassemble
    exact (hentries.map _).trans (Registration.registered_perm registrations hancestors hown)

/-- The fields of a type are registered by the type or by an ancestor, up to their order. -/
lemma Registration.registered_perm (registrations : List Registration) {ancestors : List Schema}
    {own : List (FieldDescriptor × FieldKind)}
    (hancestors : Registration.compileAncestors registrations = .ok ancestors)
    (hown : Registration.ownFields registrations = .ok own) :
    ((Schema.parts ancestors own).map RegisteredField.ofEntry).Perm
      (Registration.registered registrations) := by
  cases registrations with
  | nil =>
    cases hancestors
    cases hown
    exact .refl _
  | cons registration rest =>
    cases registration with
    | field id name kind options =>
      obtain ⟨field, others, hmake, hothers, rfl⟩ := Registration.ownFields_field hown
      obtain ⟨rfl, rfl, rfl⟩ := FieldDescriptor.make_ok hmake
      have hrest := Registration.registered_perm rest hancestors hothers
      unfold Schema.parts at hrest ⊢
      rw [List.map_append] at hrest
      rw [List.map_append, List.map_cons]
      exact List.perm_middle.trans (hrest.cons _)
    | inherit part base =>
      obtain ⟨schema, hschema, hancestors⟩ := bind_eq_ok hancestors
      obtain ⟨schemas, hschemas, hancestors⟩ := bind_eq_ok hancestors
      cases hancestors
      have hbase := TypeDecl.compile_registered base hschema
      have hrest := Registration.registered_perm rest hschemas hown
      unfold Schema.parts at hrest ⊢
      rw [List.flatMap_cons, List.append_assoc, List.map_append]
      exact hbase.append hrest

end

/-- What is found under an id is the entry with this id. -/
lemma Schema.entry?_eq_some_iff {s : Schema} (h : s.WellFormed) {id : UInt16}
    {entry : FieldDescriptor × FieldKind} :
    s.entry? id = some entry ↔ entry ∈ s.entries ∧ entry.1.id = id := by
  constructor
  · intro hentry
    obtain ⟨field, hfield, hentry⟩ := Option.bind_eq_some_iff.mp hentry
    obtain ⟨kind, hkind, hentry⟩ := Option.bind_eq_some_iff.mp hentry
    cases hentry
    have hfound := List.find?_some hfield
    have hid : field.id = id := beq_iff_eq.mp hfound
    refine ⟨List.mem_filterMap.mpr ⟨field, List.mem_of_find?_eq_some hfield, ?_⟩, hid⟩
    rw [hid, hkind]
    rfl
  · rintro ⟨hentry, rfl⟩
    exact h.entry?_eq hentry

/-- A compiled schema covers what its type registers or takes over from ancestors. -/
theorem TypeDecl.compile_covers (decl : TypeDecl) {s : Schema} (h : decl.compile = .ok s) :
    s.Covers decl.registered := by
  have hbound := decl.compile_bound h
  have hregistered := decl.compile_registered h
  have hfound : ∀ id entry, s.entry? id = some entry ↔ entry ∈ s.entries ∧ entry.1.id = id :=
    fun id entry => Schema.entry?_eq_some_iff (decl.compile_wellFormed h)
  refine ⟨?_, hbound.entries_fields, hbound.entries_ascending, hregistered, hbound.made, hfound,
    fun id => ?_⟩
  · rw [hbound.kinds_eq, ← hbound.entries_fields, List.map_map, List.map_map]
    rfl
  · rw [← (hregistered.map RegisteredField.id).mem_iff, List.map_map, Option.isSome_iff_exists,
      List.mem_map]
    exact exists_congr (hfound id)

end TaggedParcel
