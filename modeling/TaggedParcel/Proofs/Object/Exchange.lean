import TaggedParcel.Object.Decode
import TaggedParcel.Object.Encode
import TaggedParcel.Proofs.Schema.Registrations
import TaggedParcel.Sample.Nesting

set_option relaxedAutoImplicit false
set_option autoImplicit false

/-!
# The order of registrations

A type whose fields and ancestors are registered in another order has the same schema. So it can
stand in for the type wherever this is met: as the type that is written or read, as the type of
objects in it, and as an ancestor of other types.

## Main definitions

* `TypeDecl.Exchanged` — declarations in which one type stands in for another.

## Main results

* `TypeDecl.Exchanged.compile_eq` — types with one schema can stand in for each other.
* `Environment.ofTypes_exchanged` — so they give one environment.
* `TypeDecl.compile_registrations` — no registration is lost, and their order does not matter.
-/

namespace TaggedParcel

section Exchange

variable (old new : TypeDecl)

mutual

/-- Two declarations that are the same, but that the second may have the type `new` where the first
has `old`: in place of the whole or among the ancestors, near or far. -/
inductive TypeDecl.Exchanged : TypeDecl → TypeDecl → Prop where
  | whole : TypeDecl.Exchanged old new
  | ancestors {path : String} {rename : Option String}
    {registrations registrations' : List Registration} {initial : Option Object}
    (h : Registration.Exchanged registrations registrations') :
    TypeDecl.Exchanged ⟨path, rename, registrations, initial⟩
      ⟨path, rename, registrations', initial⟩

/-- Registrations that are the same but for ancestors among them. -/
inductive Registration.Exchanged : List Registration → List Registration → Prop where
  | nil : Registration.Exchanged [] []
  | field {id : UInt16} {name : String} {kind : FieldKind} {options : FieldOptions}
    {rest rest' : List Registration} (h : Registration.Exchanged rest rest') :
    Registration.Exchanged (.field id name kind options :: rest)
      (.field id name kind options :: rest')
  | inherit {part : String} {base base' : TypeDecl} {rest rest' : List Registration}
    (hbase : TypeDecl.Exchanged base base') (h : Registration.Exchanged rest rest') :
    Registration.Exchanged (.inherit part base :: rest) (.inherit part base' :: rest')

end

end Exchange

variable {old new : TypeDecl}

mutual

/-- The type need not stand in anywhere. -/
lemma TypeDecl.Exchanged.refl (decl : TypeDecl) : TypeDecl.Exchanged old new decl decl := by
  cases decl with
  | mk path rename registrations initial =>
    exact .ancestors (Registration.Exchanged.refl registrations)

/-- Registrations are exchanged for themselves. -/
lemma Registration.Exchanged.refl (registrations : List Registration) :
    Registration.Exchanged old new registrations registrations := by
  cases registrations with
  | nil => exact .nil
  | cons registration rest =>
    have hrest := Registration.Exchanged.refl rest
    cases registration with
    | field id name kind options => exact .field hrest
    | inherit part base => exact .inherit (TypeDecl.Exchanged.refl base) hrest

end

/-- Types that are exchanged have one full name. -/
lemma TypeDecl.Exchanged.path_eq (hpath : new.path = old.path) {decl decl' : TypeDecl}
    (h : TypeDecl.Exchanged old new decl decl') : decl'.path = decl.path := by
  cases h with
  | whole => exact hpath
  | ancestors => rfl

/-- Only ancestors are exchanged, so the fields that are registered beside them stay. -/
lemma Registration.Exchanged.ownFields_eq {registrations registrations' : List Registration}
    (h : Registration.Exchanged old new registrations registrations') :
    registrations'.filterMap ownField? = registrations.filterMap ownField? := by
  induction registrations generalizing registrations' with
  | nil =>
    cases h
    rfl
  | cons registration rest ih =>
    cases h with
    | field h => exact congrArg (_ :: ·) (ih h)
    | inherit _ h =>
      have hrest := ih h
      exact hrest

mutual

/-- Where two types have one schema, so have the types in which one stands in for the other. -/
lemma TypeDecl.Exchanged.compile_eq (hcompile : new.compile = old.compile) {decl decl' : TypeDecl}
    (h : TypeDecl.Exchanged old new decl decl') : decl'.compile = decl.compile := by
  cases h with
  | whole => exact hcompile
  | ancestors h =>
    have hown := h.ownFields_eq
    rw [TypeDecl.compile, TypeDecl.compile, Registration.Exchanged.compileAncestors_eq hcompile h]
    unfold Schema.assemble Registration.ownFields
    dsimp only
    rw [hown]
    rfl

/-- Exchanged registrations have the same ancestors, if the type and its stand-in have one schema.
-/
lemma Registration.Exchanged.compileAncestors_eq (hcompile : new.compile = old.compile)
    {registrations registrations' : List Registration}
    (h : Registration.Exchanged old new registrations registrations') :
    Registration.compileAncestors registrations' = Registration.compileAncestors registrations := by
  cases h with
  | nil => rfl
  | field h =>
    have hrest := Registration.Exchanged.compileAncestors_eq hcompile h
    exact hrest
  | inherit hbase h =>
    rw [Registration.compileAncestors, Registration.compileAncestors,
      TypeDecl.Exchanged.compile_eq hcompile hbase,
      Registration.Exchanged.compileAncestors_eq hcompile h]

end

/-- Where two types have one name and one schema, the types in which one stands in for the other
make up one environment. -/
lemma Environment.ofTypes_exchanged (hpath : new.path = old.path)
    (hcompile : new.compile = old.compile) {types types' : List TypeDecl}
    (h : List.Forall₂ (TypeDecl.Exchanged old new) types types') (interfaces : InterfaceRegistry) :
    ofTypes types' interfaces = ofTypes types interfaces := by
  have hschemas : types'.map (fun decl => (decl.path, decl.compile)) =
      types.map fun decl => (decl.path, decl.compile) := by
    induction h with
    | nil => rfl
    | cons hdecl _ ih =>
      rw [List.map_cons, List.map_cons, ih, hdecl.path_eq hpath, hdecl.compile_eq hcompile]
  unfold ofTypes
  rw [hschemas]

/-- If the registrations of a type can be compiled, the entries of its schema are just the fields
that it registers or takes over from ancestors, near or far: each once, in ascending order of the
ids, and found under its id with the kind that it was registered with. In any other order the
registrations can be compiled as well, and the type then has the same schema, with the same
descriptor. Wherever it stands in for the first one, all objects are written to the same bytes with
the same report, and all bytes are read to the same result.

**Proof sketch.** Kinds are collected as a map, the fields as a list in which each is inserted by
its id. As the ids are distinct, both hold just what was put in, in the order of the ids, and so
they are the same for all orders. By induction over the ancestors this is what was registered. -/
theorem TypeDecl.compile_registrations (decl : TypeDecl) {s : Schema} (h : decl.compile = .ok s) :
    s.Covers decl.registered ∧
    ∀ registrations : List Registration, registrations.Perm decl.registrations →
      TypeDecl.compile { decl with registrations := registrations } = .ok s ∧
      ∀ (types types' : List TypeDecl) (interfaces : InterfaceRegistry) (type : String),
        List.Forall₂
          (TypeDecl.Exchanged decl { decl with registrations := registrations }) types types' →
        (∀ o w, encode (.ofTypes types' interfaces) type o w =
          encode (.ofTypes types interfaces) type o w) ∧
        ∀ limits r, decode (.ofTypes types' interfaces) limits type r =
          decode (.ofTypes types interfaces) limits type r := by
  refine ⟨decl.compile_covers h, fun registrations hperm => ?_⟩
  have hreordered := TypeDecl.compile_perm h hperm
  have hsame : TypeDecl.compile { decl with registrations := registrations } = decl.compile :=
    hreordered.trans h.symm
  refine ⟨hreordered, fun types types' interfaces type htypes => ?_⟩
  rw [Environment.ofTypes_exchanged (by rfl) hsame htypes]
  exact ⟨fun _ _ => rfl, fun _ _ => rfl⟩

namespace Sample

/-- A type with two ancestors, which are registered last first. -/
def regrouped : TypeDecl :=
  { grandDerived "" with registrations := (grandDerived "").registrations.reverse }

/-- A type with an ancestor. -/
def heir (base : TypeDecl) : TypeDecl :=
  abstract "Heir" none [.inherit "base" base, .field 11 "extra" (plain .int) {}]

end Sample

/-- The type has a field from an ancestor of its ancestor. Objects of a type that inherits from it
are written in the same way if its registrations are reversed. -/
theorem TypeDecl.compile_registrations_reversed :
    ∃ s, (Sample.grandDerived "").compile = .ok s ∧ (s.entry? 1).isSome ∧
      ∀ o w, encode (.ofTypes [Sample.heir Sample.regrouped] Sample.interfaces) "Heir" o w =
        encode (.ofTypes [Sample.heir (Sample.grandDerived "")] Sample.interfaces) "Heir" o w := by
  have hcompile : ∃ s, (Sample.grandDerived "").compile = .ok s := ⟨_, rfl⟩
  obtain ⟨s, hs⟩ := hcompile
  obtain ⟨hcovers, hreordered⟩ := TypeDecl.compile_registrations (Sample.grandDerived "") hs
  obtain ⟨-, hsame⟩ := hreordered _ (List.reverse_perm _)
  refine ⟨s, hs, (hcovers.known 1).mpr (by decide), fun o w => ?_⟩
  refine (hsame _ _ Sample.interfaces "Heir" (.cons ?_ .nil)).1 o w
  exact .ancestors (.inherit .whole (Registration.Exchanged.refl _))

end TaggedParcel
