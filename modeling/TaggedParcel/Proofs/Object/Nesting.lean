import TaggedParcel.Proofs.Object.Absence
import TaggedParcel.Proofs.Object.Clean

set_option relaxedAutoImplicit false
set_option autoImplicit false

/-!
# How deep objects nest

Objects nest in the members of objects. Writing goes down one level for each, and without levels
left it fails. So an object that is written without a report nests no deeper than the levels that
there are.

## Main definitions

* `Object.nesting` — how deep objects nest in an object.
* `Object.Throughout` — what is true of an object and of all objects in it.
* `Schema.Describes` — objects as their type describes them.

## Main results

* `Object.nesting_le` — how deep the objects in the members nest.
* `encodeObject_nests` — what is written without a report does not nest too deep.
-/

namespace TaggedParcel

mutual

/-- How deep objects nest in an object, which is itself counted: the length of the longest chain
of objects of which each is in the one before. -/
def Object.nesting : Object → Nat
  | ⟨members⟩ => nestingOfMembers members + 1

/-- How deep objects nest in the members of an object. -/
def nestingOfMembers : List (UInt16 × Member) → Nat
  | [] => 0
  | (_, m) :: rest => max m.nesting (nestingOfMembers rest)

/-- How deep objects nest in a member. -/
def Member.nesting : Member → Nat
  | .object (some o) => o.nesting
  | .objectArray items => nestingOfSlots items
  | .objectList items => nestingOfItems items
  | .objectMap entries => nestingOfEntries entries
  | _ => 0

/-- How deep objects nest in an array in which some may be missing. -/
def nestingOfSlots : List (Option Object) → Nat
  | [] => 0
  | none :: rest => nestingOfSlots rest
  | some o :: rest => max o.nesting (nestingOfSlots rest)

/-- How deep objects nest in a list. -/
def nestingOfItems : List Object → Nat
  | [] => 0
  | o :: rest => max o.nesting (nestingOfItems rest)

/-- How deep objects nest in a map. -/
def nestingOfEntries : List (Value × Object) → Nat
  | [] => 0
  | (_, o) :: rest => max o.nesting (nestingOfEntries rest)

end

/-- Objects that may be missing nest no deeper than the deepest of them. -/
lemma nestingOfSlots_le {items : List (Option Object)} {n : Nat} :
    nestingOfSlots items ≤ n ↔ ∀ o ∈ items.filterMap id, o.nesting ≤ n := by
  induction items with
  | nil => simp [nestingOfSlots]
  | cons item rest ih =>
    cases item with
    | none => exact ih
    | some o =>
      have hcons : (some o :: rest).filterMap id = o :: rest.filterMap id := rfl
      rw [nestingOfSlots, Nat.max_le, ih, hcons, List.forall_mem_cons]

/-- Objects in a list nest no deeper than the deepest of them. -/
lemma nestingOfItems_le {items : List Object} {n : Nat} :
    nestingOfItems items ≤ n ↔ ∀ o ∈ items, o.nesting ≤ n := by
  induction items with
  | nil => simp [nestingOfItems]
  | cons o rest ih => rw [nestingOfItems, Nat.max_le, ih, List.forall_mem_cons]

/-- Objects in a map nest no deeper than the deepest of them. -/
lemma nestingOfEntries_le {entries : List (Value × Object)} {n : Nat} :
    nestingOfEntries entries ≤ n ↔ ∀ o ∈ entries.map Prod.snd, o.nesting ≤ n := by
  induction entries with
  | nil => simp [nestingOfEntries]
  | cons entry rest ih =>
    rw [nestingOfEntries, Nat.max_le, ih, List.map_cons, List.forall_mem_cons]

/-- A member nests no deeper than the deepest object in it. -/
lemma Member.nesting_le {m : Member} {n : Nat} :
    m.nesting ≤ n ↔ ∀ o ∈ m.objects, o.nesting ≤ n := by
  cases m with
  | object o => cases o <;> simp [nesting, objects]
  | objectArray items => exact nestingOfSlots_le
  | objectList items => exact nestingOfItems_le
  | objectMap entries => exact nestingOfEntries_le
  | _ => simp [nesting, objects]

/-- Members nest no deeper than the deepest object in them. -/
lemma nestingOfMembers_le {members : List (UInt16 × Member)} {n : Nat} :
    nestingOfMembers members ≤ n ↔ ∀ entry ∈ members, ∀ o ∈ entry.2.objects, o.nesting ≤ n := by
  induction members with
  | nil => simp [nestingOfMembers]
  | cons entry rest ih =>
    rw [nestingOfMembers, Nat.max_le, ih, Member.nesting_le, List.forall_mem_cons]

namespace Object

/-- An object nests one deeper than the objects in its members. -/
lemma nesting_le {o : Object} {n : Nat} :
    o.nesting ≤ n + 1 ↔ ∀ entry ∈ o.members, ∀ inner ∈ entry.2.objects, inner.nesting ≤ n := by
  obtain ⟨members⟩ := o
  rw [nesting, Nat.add_le_add_iff_right, nestingOfMembers_le]

/-- Where ids are distinct, a member stands under its id. -/
lemma get?_of_mem {o : Object} (hnodup : (o.members.map Prod.fst).Nodup) {entry : UInt16 × Member}
    (hentry : entry ∈ o.members) : o.get? entry.1 = some entry.2 :=
  lookup_eq_some_of_mem hnodup hentry

/-- An object is itself counted. -/
lemma nesting_pos (o : Object) : 0 < o.nesting := by
  obtain ⟨members⟩ := o
  rw [nesting]
  exact Nat.succ_pos _

end Object

/-- What is true of an object, together with the schema of its type, and of all objects in it,
together with the schemas of the types that the fields name. -/
inductive Object.Throughout (env : Environment) (p : Schema → Object → Prop) :
    String → Object → Prop where
  /-- It is true of the object, and throughout the objects in its members. -/
  | mk {type : String} {o : Object} {schema : Schema} (hschema : env.schemaOf type = .ok schema)
    (hobject : p schema o)
    (hobjects : ∀ entry ∈ schema.entries, ∀ m inner, o.get? entry.1.id = some m →
      entry.2.objectType? = some inner → ∀ nested ∈ m.objects, Throughout env p inner nested) :
    Throughout env p type o

/-- The members that a field of a kind was registered to hold. -/
def FieldKind.Takes : FieldKind → Member → Prop
  | .value _ _, .value _ | .list _, .list _ | .map _ _, .map _ | .object _, .object _ => True
  | .objectArray _, .objectArray _ | .objectList _, .objectList _ => True
  | .objectMap _ _, .objectMap _ | .interface _, .interface _ => True
  | _, _ => False

/-- An object as its type describes it: the type has fresh instances, the object has the members
of the type, and each is what its field was registered to hold. -/
structure Schema.Describes (schema : Schema) (o : Object) : Prop where
  /-- There are fresh instances. -/
  constructible : ∃ fresh, schema.construct = .ok fresh
  /-- The object has a member under every id, and no others. -/
  ids : (o.members.map Prod.fst).Perm (schema.entries.map fun entry => entry.1.id)
  /-- The members belong into their fields. -/
  takes : ∀ entry ∈ schema.entries, ∀ m, o.get? entry.1.id = some m → entry.2.Takes m

namespace Schema.Describes

variable {schema : Schema} {o : Object}

/-- An object nests as deep as its members do, one for each entry of the schema. -/
lemma nesting_le (h : schema.Describes o) (hwell : schema.WellFormed) {n : Nat} :
    o.nesting ≤ n + 1 ↔ ∀ entry ∈ schema.entries, ∀ m, o.get? entry.1.id = some m →
      ∀ inner ∈ m.objects, inner.nesting ≤ n := by
  have hnodup : (o.members.map Prod.fst).Nodup := h.ids.nodup_iff.mpr hwell.entries_nodup
  rw [Object.nesting_le]
  constructor
  · intro hmembers entry _ m hm
    obtain ⟨front, back, hsplit, -⟩ := List.lookup_eq_some_iff.mp hm
    exact hmembers (entry.1.id, m) (by rw [hsplit]; simp)
  · intro hentries member hmem inner hinner
    obtain ⟨entry, hentry, hid⟩ := List.mem_map.mp (h.ids.mem_iff.mp (List.mem_map_of_mem hmem))
    have hget := Object.get?_of_mem hnodup hmem
    rw [← hid] at hget
    exact hentries entry hentry member.2 hget inner hinner

end Schema.Describes

/-! ## Writing -/

/-- Where nothing is told in a payload, what is known of an object that tells nothing is known of
every object in the payload. -/
lemma Pieces.forall {p : Object → Prop} {start : Nat} {objects : List Object} {bs : List UInt8}
    {told : Report} (h : Pieces (fun _ o _ told => told = [] → p o) start objects bs told)
    (htold : told = []) : ∀ o ∈ objects, p o := by
  induction h with
  | nil => exact fun o ho => absurd ho List.not_mem_nil
  | words hwords hrest ih => exact ih htold
  | object hobject hrest ih =>
    obtain ⟨hinner, hothers⟩ := List.append_eq_nil_iff.mp htold
    exact List.forall_mem_cons.mpr ⟨hobject hinner, ih hothers⟩

/-- A member without a value has no objects. -/
lemma Member.objects_of_absent {m : Member} (h : m.Absent) : m.objects = [] := by
  cases m with
  | value | interface => rfl
  | object o =>
    cases o with
    | none => rfl
    | some o => exact h.elim
  | _ => exact h.elim

namespace FieldKind

variable {kind : FieldKind} {m : Member}

/-- A member that belongs into a field without objects has none. -/
lemma objects_eq_nil (htakes : kind.Takes m) (h : kind.objectType? = none) :
    m.objects = [] := by
  cases kind <;> cases h <;> cases m <;> first | rfl | exact htakes.elim

/-- A member that belongs into a field with objects suits it. -/
lemma suits_of_takes (htakes : kind.Takes m) {inner : String}
    (h : kind.objectType? = some inner) : kind.Suits m := by
  cases kind <;> cases h <;> cases m <;> trivial

end FieldKind

namespace Encode

variable {env : Environment} {nested : ObjectWriter} {type : String} {entry : FieldDescriptor}
  {kind : FieldKind} {m : Member} {n : Nat}

/-- The objects in a member nest no deeper than objects that are written there. -/
lemma field_nests {good : Object → Prop}
    (hlayout : kind.shape.resolve entry.options = .ok entry.semantic)
    (htakes : kind.Takes m)
    (hnested : ∀ inner, kind.objectType? = some inner → ∀ o,
      Assembles (fun _ o _ told => told = [] → good o → o.nesting ≤ n) 4 (nested inner o) [o])
    (hgood : ∀ o ∈ m.objects, good o) :
    Clean (field env nested type entry kind m) fun _ => ∀ o ∈ m.objects, o.nesting ≤ n := by
  refine .of_steady (field_form hnested) fun bs hform => ?_
  cases hkind : kind.objectType? with
  | none => simp [FieldKind.objects_eq_nil htakes hkind]
  | some inner =>
    obtain ⟨ids, hwritten⟩ :=
      hform.2 hlayout (FieldKind.suits_of_takes htakes hkind) 0 (Nat.dvd_zero 4)
    have hvariable : entry.semantic.fixedSize = none :=
      FieldKind.fixedSize_eq_none (fun k optional hvalue => by subst hvalue; cases hkind) hlayout
    cases hwritten with
    | skipped habsent => simp [Member.objects_of_absent habsent]
    | null habsent => simp [Member.objects_of_absent habsent]
    | packed hpresent hfixed =>
      rw [hvariable] at hfixed
      cases hfixed
    | escaped hpresent _ hleast hfits haligned hpieces =>
      intro o ho
      exact hpieces.forall rfl o ho (hgood o ho)

end Encode

open Encode

/-- An object that is written without a report nests no deeper than the levels that are left.

**Proof sketch.** Induction on the levels. Where nothing is told of an object all its members were
written, with the objects in them one level down. -/
theorem encodeObject_nests {env : Environment}
    (hcompiled : ∀ type schema, env.schemaOf type = .ok schema → schema.WellFormed)
    (levels : Nat) (type : String) (o : Object) :
    Clean (encodeObject env levels type o) fun _ =>
      o.Throughout env Schema.Describes type → o.nesting ≤ levels := by
  induction levels generalizing type o with
  | zero => exact Steady.schema fun _ _ => .throw _
  | succ levels ih =>
    by_cases hthrough : o.Throughout env Schema.Describes type
    case neg =>
      exact .of_steady (encodeObject_form env _ type o) fun _ _ h => absurd h hthrough
    case pos =>
      obtain @⟨_, _, schema, hschema, hdescribes, hobjects⟩ := hthrough
      have hwell := hcompiled type schema hschema
      have hmembers : ∀ entry ∈ schema.entries, ∀ m, o.get? entry.1.id = some m →
          Clean (field env (encodeObject env levels) schema.name entry.1 entry.2 m)
            fun _ => ∀ inner ∈ m.objects, inner.nesting ≤ levels := by
        intro entry hentry m hm
        refine field_nests (hwell.resolve_eq hentry) (hdescribes.takes entry hentry m hm)
          (fun inner hinner o => ?_) fun nested hmem inner hinner =>
            hobjects entry hentry m inner hm hinner nested hmem
        exact encodeObject_assembles (Steady.mono (ih inner o) fun _ _ h _ htold hgood =>
          h htold (hgood inner hinner))
      refine (Clean.encodeObject hschema hmembers).mono ?_
      rintro bs ⟨body, -, -, hconcat⟩ -
      refine (hdescribes.nesting_le hwell).mpr fun entry hentry m hm => ?_
      obtain ⟨m', hm', hle⟩ := hconcat.forall entry hentry
      rw [hm] at hm'
      cases hm'
      exact hle

end TaggedParcel
