import TaggedParcel.Proofs.Schema.Compile

set_option relaxedAutoImplicit false
set_option autoImplicit false

/-!
# Declarations without version gates

Version gates have no part in how a declaration is compiled. So a declaration may be freed of its
gates before it is compiled or afterwards, with the same schema, and with the same failure if there
is one.

## Main definitions

* `TypeDecl.ungated`, `Schema.ungated` — a declaration and a schema without version gates.
* `Environment.ungated` — the types at hand, without version gates.

## Main results

* `TypeDecl.compile_ungated` — compiling a declaration without gates.
* `Environment.ungated_ofTypes` — the environment of declarations without gates.
* `Schema.entry?_ungated` — what is found in a schema without gates.
-/

namespace TaggedParcel

/-! ## Schemas -/

/-- The options of a field, without its version gate. -/
def FieldOptions.ungated (options : FieldOptions) : FieldOptions :=
  { options with versionGate := none }

/-- A field without its version gate. -/
def FieldDescriptor.ungated (field : FieldDescriptor) : FieldDescriptor :=
  { field with options := field.options.ungated }

/-- The fields of a type without their version gates. -/
def TypeDescriptor.ungated (d : TypeDescriptor) : TypeDescriptor :=
  { d with fields := d.fields.map FieldDescriptor.ungated }

/-- What a descriptor is built from, without version gates. -/
def DescriptorItem.ungated : DescriptorItem → DescriptorItem
  | .own field => .own field.ungated
  | .inherited ancestor => .inherited ancestor.ungated

/-- A schema without version gates. -/
def Schema.ungated (s : Schema) : Schema :=
  { s with descriptor := s.descriptor.ungated }

mutual

/-- A declaration without version gates, also in its ancestors. -/
def TypeDecl.ungated : TypeDecl → TypeDecl
  | ⟨path, rename, registrations, initial⟩ =>
    ⟨path, rename, Registration.ungated registrations, initial⟩

/-- Registrations without version gates. -/
def Registration.ungated : List Registration → List Registration
  | [] => []
  | .field id name kind options :: rest =>
    .field id name kind options.ungated :: Registration.ungated rest
  | .inherit part base :: rest => .inherit part base.ungated :: Registration.ungated rest

end

namespace FieldDescriptor

variable (field : FieldDescriptor)

/-- Without its gate a field has the same id. -/
@[simp] lemma ungated_id : field.ungated.id = field.id := rfl

/-- Without its gate a field has the same name. -/
@[simp] lemma ungated_name : field.ungated.name = field.name := rfl

/-- Without its gate a field has the same layout. -/
@[simp] lemma ungated_semantic : field.ungated.semantic = field.semantic := rfl

/-- No value is above the gate of a field without one. -/
@[simp] lemma crossedGate?_ungated (found : Int64) : field.ungated.crossedGate? found = none := rfl

end FieldDescriptor

/-! ## Compiling -/

/-- The layout of a field does not depend on its gate. -/
lemma Shape.resolve_ungated (declared : Shape) (options : FieldOptions) :
    declared.resolve options.ungated = declared.resolve options := by
  cases declared <;> rfl

/-- A field is made without its gate as it is made with it. -/
lemma FieldDescriptor.make_ungated (id : UInt16) (name : String) (declared : Shape)
    (options : FieldOptions) :
    make id name declared options.ungated = (make id name declared options).map ungated := by
  unfold make
  rw [Shape.resolve_ungated]
  cases declared.resolve options <;> rfl

namespace TypeDescriptor

/-- Looking up a field finds the same one without its gate. -/
lemma find?_ungated (fields : List FieldDescriptor) (id : UInt16) :
    find? (fields.map FieldDescriptor.ungated) id =
      (find? fields id).map FieldDescriptor.ungated := by
  unfold find?
  rw [List.find?_map]
  rfl

/-- A field takes the same place without its gate. -/
lemma insertById_ungated (field : FieldDescriptor) (fields : List FieldDescriptor) :
    insertById field.ungated (fields.map FieldDescriptor.ungated) =
      (insertById field fields).map FieldDescriptor.ungated := by
  induction fields with
  | nil => rfl
  | cons other rest ih =>
    rw [List.map_cons, insertById, insertById, FieldDescriptor.ungated_id,
      FieldDescriptor.ungated_id, ih]
    split <;> rfl

/-- Adding a field is accepted or refused in the same way without gates. -/
lemma addField_ungated (name : String) (fields : List FieldDescriptor) (field : FieldDescriptor) :
    addField name (fields.map FieldDescriptor.ungated) field.ungated =
      (addField name fields field).map (List.map FieldDescriptor.ungated) := by
  unfold addField
  rw [find?_ungated, insertById_ungated, FieldDescriptor.ungated_id, FieldDescriptor.ungated_name]
  split
  · rfl
  · cases find? fields field.id <;> rfl

/-- Adding fields is accepted or refused in the same way without gates. -/
lemma addFields_ungated (name : String) (items fields : List FieldDescriptor) :
    (items.map FieldDescriptor.ungated).foldlM (addField name)
        (fields.map FieldDescriptor.ungated) =
      (items.foldlM (addField name) fields).map (List.map FieldDescriptor.ungated) := by
  induction items generalizing fields with
  | nil => rfl
  | cons field rest ih =>
    rw [List.map_cons, List.foldlM_cons, List.foldlM_cons, addField_ungated]
    cases addField name fields field with
    | error e => rfl
    | ok fields => exact ih fields

/-- The fields of an item without gates are its fields without gates. -/
lemma fields_ungated (item : DescriptorItem) :
    item.ungated.fields = item.fields.map FieldDescriptor.ungated := by
  cases item <;> rfl

/-- The descriptor of items without gates. -/
lemma build_ungated (name : String) (constructible : Bool) (items : List DescriptorItem) :
    build name constructible (items.map DescriptorItem.ungated) =
      (build name constructible items).map ungated := by
  have hfields : (items.map DescriptorItem.ungated).flatMap DescriptorItem.fields =
      (items.flatMap DescriptorItem.fields).map FieldDescriptor.ungated := by
    rw [List.flatMap_map, List.map_flatMap]
    exact List.flatMap_congr fun item _ => fields_ungated item
  unfold build
  rw [hfields]
  have hadded := addFields_ungated name (items.flatMap DescriptorItem.fields) []
  rw [List.map_nil] at hadded
  rw [hadded]
  cases (items.flatMap DescriptorItem.fields).foldlM (addField name) [] <;> rfl

end TypeDescriptor

/-- The fields that registrations add, without their gates. -/
lemma Registration.ownFields_ungated (registrations : List Registration) :
    ownFields (ungated registrations) =
      (ownFields registrations).map (List.map fun entry => (entry.1.ungated, entry.2)) := by
  induction registrations with
  | nil => rfl
  | cons registration rest ih =>
    cases registration with
    | inherit part base => exact ih
    | field id name kind options =>
      have hcons : ∀ (options : FieldOptions) (rest : List Registration),
          ownFields (.field id name kind options :: rest) = do
            let field ← FieldDescriptor.make id name kind.shape options
            let own ← ownFields rest
            return (field, kind) :: own := by
        intro options rest
        unfold ownFields
        rw [List.filterMap_cons]
        simp only [ownField?, List.mapM_cons, id_eq, bind_assoc, pure_bind]
      rw [ungated, hcons, hcons, ih, FieldDescriptor.make_ungated]
      cases FieldDescriptor.make id name kind.shape options with
      | error e => rfl
      | ok field => cases ownFields rest <;> rfl

/-- A schema that is assembled from what has no gates has none. -/
lemma Schema.assemble_ungated (decl : TypeDecl) (ancestors : List Schema) :
    Schema.assemble decl.ungated (ancestors.map Schema.ungated) =
      (Schema.assemble decl ancestors).map Schema.ungated := by
  obtain ⟨path, rename, registrations, initial⟩ := decl
  unfold Schema.assemble
  simp only [TypeDecl.ungated, Registration.ownFields_ungated]
  cases Registration.ownFields registrations with
  | error e => rfl
  | ok own =>
    have hitems : (ancestors.map Schema.ungated).map
          (fun base => DescriptorItem.inherited base.descriptor) ++
        (own.map fun entry => (entry.1.ungated, entry.2)).map
          (fun entry => DescriptorItem.own entry.1) =
        (ancestors.map (fun base => DescriptorItem.inherited base.descriptor) ++
          own.map (fun entry => DescriptorItem.own entry.1)).map DescriptorItem.ungated := by
      simp only [List.map_map, List.map_append]
      rfl
    have hkinds : (ancestors.map Schema.ungated).flatMap (fun base => base.kinds) ++
        (own.map fun entry => (entry.1.ungated, entry.2)).map (fun entry => (entry.1.id, entry.2)) =
        ancestors.flatMap (fun base => base.kinds) ++
          own.map (fun entry => (entry.1.id, entry.2)) := by
      simp only [List.flatMap_map, List.map_map]
      rfl
    simp only [bind, Except.bind, Except.map]
    rw [hitems, hkinds, TypeDescriptor.build_ungated,
      show TypeDecl.schemaName ⟨path, rename, Registration.ungated registrations, initial⟩ =
        TypeDecl.schemaName ⟨path, rename, registrations, initial⟩ from rfl]
    cases TypeDescriptor.build (TypeDecl.schemaName ⟨path, rename, registrations, initial⟩)
      initial.isSome _ <;> rfl

mutual

/-- A declaration without gates is compiled to the schema without gates. -/
lemma TypeDecl.compile_ungated (decl : TypeDecl) :
    decl.ungated.compile = decl.compile.map Schema.ungated := by
  cases decl with
  | mk path rename registrations initial =>
    have hancestors := Registration.compileAncestors_ungated registrations
    unfold TypeDecl.ungated TypeDecl.compile
    rw [hancestors]
    cases Registration.compileAncestors registrations with
    | error e => rfl
    | ok ancestors => exact Schema.assemble_ungated ⟨path, rename, registrations, initial⟩ ancestors

/-- The ancestors of registrations are compiled in the same way without gates. -/
lemma Registration.compileAncestors_ungated (registrations : List Registration) :
    Registration.compileAncestors (Registration.ungated registrations) =
      (Registration.compileAncestors registrations).map (List.map Schema.ungated) := by
  cases registrations with
  | nil => rfl
  | cons registration rest =>
    have hrest := Registration.compileAncestors_ungated rest
    cases registration with
    | field id name kind options => exact hrest
    | inherit part base =>
      have hbase := TypeDecl.compile_ungated base
      unfold Registration.ungated Registration.compileAncestors
      rw [hbase, hrest]
      cases base.compile with
      | error e => rfl
      | ok schema => cases Registration.compileAncestors rest <;> rfl

end

/-! ## Environments -/

namespace Environment

/-- The types at hand, without their version gates. -/
def ungated (env : Environment) : Environment :=
  { env with schemaOf := fun type => (env.schemaOf type).map Schema.ungated }

/-- Without gates, a type has the same schema but for the gates. -/
@[simp] lemma schemaOf_ungated (env : Environment) (type : String) :
    env.ungated.schemaOf type = (env.schemaOf type).map Schema.ungated := rfl

/-- The environment of declarations without gates. -/
theorem ungated_ofTypes (types : List TypeDecl) (interfaces : InterfaceRegistry) :
    (ofTypes types interfaces).ungated = ofTypes (types.map TypeDecl.ungated) interfaces := by
  have hlookup : ∀ path, ((types.map TypeDecl.ungated).map fun decl =>
      (decl.path, decl.compile)).lookup path =
        ((types.map fun decl => (decl.path, decl.compile)).lookup path).map
          (Except.map Schema.ungated) := by
    intro path
    induction types with
    | nil => rfl
    | cons decl rest ih =>
      have hpath : decl.ungated.path = decl.path := by cases decl; rfl
      simp only [List.map_cons, List.lookup_cons, hpath, TypeDecl.compile_ungated]
      rw [ih]
      cases path == decl.path <;> rfl
  unfold ungated ofTypes
  simp only [hlookup]
  congr 1
  funext path
  cases (types.map fun decl => (decl.path, decl.compile)).lookup path <;> rfl

end Environment

namespace Schema

variable (s : Schema)

/-- Without gates, a schema has the same name. -/
@[simp] lemma ungated_name : s.ungated.name = s.name := rfl

/-- A field is found without its gate, and registered as before. -/
lemma entry?_ungated (id : UInt16) :
    s.ungated.entry? id = (s.entry? id).map fun entry => (entry.1.ungated, entry.2) := by
  have hfield : s.ungated.descriptor.field? id =
      (s.descriptor.field? id).map FieldDescriptor.ungated := TypeDescriptor.find?_ungated _ id
  unfold Schema.entry?
  rw [hfield]
  cases s.descriptor.field? id with
  | none => rfl
  | some field =>
    show ((s.kinds.lookup id).bind fun kind => some (field.ungated, kind)) =
      ((s.kinds.lookup id).bind fun kind => some (field, kind)).map _
    cases s.kinds.lookup id <;> rfl

end Schema

end TaggedParcel
