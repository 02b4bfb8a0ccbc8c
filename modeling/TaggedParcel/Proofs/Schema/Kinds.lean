import TaggedParcel.Proofs.Schema.Compile

set_option relaxedAutoImplicit false
set_option autoImplicit false

/-!
# The kinds in a schema

Compiling brings no kinds into a schema but those that the type registers or takes over from its
ancestors. So what is said of the registrations holds of the fields.

## Main definitions

* `TypeDecl.Declares` — declarations all of whose registered kinds have a property.

## Main results

* `Environment.ofTypes_kinds` — the kinds in the schemas of declared types are declared ones.
-/

namespace TaggedParcel

mutual

/-- Every kind that a type registers or takes over has a property. -/
def TypeDecl.Declares (P : FieldKind → Prop) : TypeDecl → Prop
  | ⟨_, _, registrations, _⟩ => Registration.Declare P registrations

/-- Every kind among registrations and in their ancestors has a property. -/
def Registration.Declare (P : FieldKind → Prop) : List Registration → Prop
  | [] => True
  | .field _ _ kind _ :: rest => P kind ∧ Registration.Declare P rest
  | .inherit _ base :: rest => base.Declares P ∧ Registration.Declare P rest

end

variable {P : FieldKind → Prop}

/-- The kind of a field that a type adds itself is registered. -/
lemma Registration.Declare.own {registrations : List Registration} (h : Declare P registrations)
    {own : List (FieldDescriptor × FieldKind)} (hown : ownFields registrations = .ok own)
    {entry : FieldDescriptor × FieldKind} (hentry : entry ∈ own) : P entry.2 := by
  obtain ⟨id, name, kind, options, field, hmem, -, rfl⟩ := mem_ownFields hown hentry
  clear hown hentry
  induction registrations with
  | nil => cases hmem
  | cons first rest ih =>
    rcases List.mem_cons.mp hmem with rfl | hrest
    · exact h.1
    · cases first with
      | field => exact ih h.2 hrest
      | inherit => exact ih h.2 hrest

/-- The kinds in an assembled schema are the type's own and those of its ancestors. -/
lemma Schema.assemble_kinds {decl : TypeDecl} {ancestors : List Schema} {s : Schema}
    (hdecl : decl.Declares P)
    (hancestors : ∀ base ∈ ancestors, ∀ entry ∈ base.kinds, P entry.2)
    (h : Schema.assemble decl ancestors = .ok s) : ∀ entry ∈ s.kinds, P entry.2 := by
  obtain ⟨own, hown, h⟩ := bind_eq_ok h
  obtain ⟨descriptor, -, h⟩ := bind_eq_ok h
  cases h
  intro entry hentry
  rcases List.mem_append.mp (Sorted.mem_of_mem_ofList hentry) with hentry | hentry
  · obtain ⟨base, hbase, hentry⟩ := List.mem_flatMap.mp hentry
    exact hancestors base hbase entry hentry
  · obtain ⟨added, hadded, rfl⟩ := List.mem_map.mp hentry
    cases decl with
    | mk path rename registrations initial => exact Registration.Declare.own hdecl hown hadded

mutual

/-- The kinds in a compiled schema are declared. -/
lemma TypeDecl.compile_kinds {decl : TypeDecl} (hdecl : decl.Declares P) {s : Schema}
    (h : decl.compile = .ok s) : ∀ entry ∈ s.kinds, P entry.2 := by
  cases decl with
  | mk path rename registrations initial =>
    obtain ⟨ancestors, hancestors, hassemble⟩ := bind_eq_ok h
    exact Schema.assemble_kinds hdecl (Registration.compileAncestors_kinds hdecl hancestors)
      hassemble

/-- The kinds in the schemas of ancestors are those that the ancestors register or take over. -/
lemma Registration.compileAncestors_kinds {registrations : List Registration}
    (hdecl : Registration.Declare P registrations) {schemas : List Schema}
    (h : Registration.compileAncestors registrations = .ok schemas) :
    ∀ base ∈ schemas, ∀ entry ∈ base.kinds, P entry.2 := by
  cases registrations with
  | nil =>
    cases h
    simp
  | cons registration rest =>
    cases registration with
    | field id name kind options => exact Registration.compileAncestors_kinds hdecl.2 h
    | inherit part base =>
      obtain ⟨schema, hschema, h⟩ := bind_eq_ok h
      obtain ⟨others, hothers, h⟩ := bind_eq_ok h
      cases h
      intro s hs
      rcases List.mem_cons.mp hs with rfl | hs
      · exact TypeDecl.compile_kinds hdecl.1 hschema
      · exact Registration.compileAncestors_kinds hdecl.2 hothers s hs

end

/-- The kinds in the schemas of declared types are declared. -/
theorem Environment.ofTypes_kinds {types : List TypeDecl} {interfaces : InterfaceRegistry}
    (htypes : ∀ decl ∈ types, decl.Declares P) {type : String} {s : Schema}
    (h : (ofTypes types interfaces).schemaOf type = .ok s) : ∀ entry ∈ s.kinds, P entry.2 := by
  obtain ⟨decl, hdecl, hcompile⟩ := ofTypes_compiled h
  exact TypeDecl.compile_kinds (htypes decl hdecl) hcompile

end TaggedParcel
