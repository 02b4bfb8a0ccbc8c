import Mathlib.Tactic.Lemma
import TaggedParcel.Shape.Resolve

set_option relaxedAutoImplicit false
set_option autoImplicit false

/-!
# The shapes that have a layout

Which shapes have a layout is a matter of grammar: there are the shapes that generic values can
take, nested without bound, and around them a few that only a field can have. The options of the
field choose the layout, but not whether there is one. A shape with a layout mentions at most one
described type, so that its hint leaves no doubt.

## Main definitions

* `Shape.Generic` — the shapes that generic values can take.
* `Shape.Accepted` — the shapes that a field can have.
* `Shape.mentioned` — the described types in a shape, wherever they occur.

## Main results

* `Shape.checkGeneric_eq_ok_iff` — the check of generic shapes is exact.
* `Shape.resolve_eq_ok_iff` — the accepted shapes are those with a layout, under any options.
* `Shape.Accepted.mentioned_eq` — an accepted shape mentions just its hint.
* `Shape.resolve_accepts` — these together.
-/

namespace TaggedParcel

namespace Shape

/-- The shapes of truth values and numbers. -/
inductive Scalar : Shape → Prop where
  | bool : Scalar .bool
  | byte : Scalar .byte
  | short : Scalar .short
  | int : Scalar .int
  | long : Scalar .long
  | float : Scalar .float
  | double : Scalar .double

/-- The shapes that generic values can take. -/
inductive Generic : Shape → Prop where
  | scalar {shape : Shape} (h : Scalar shape) : Generic shape
  | string : Generic .string
  | bundle : Generic .bundle
  | binder : Generic .binder
  | value : Generic .value
  | byteArray : Generic (.array .byte)
  | intArray : Generic (.array .int)
  | longArray : Generic (.array .long)
  | stringArray : Generic (.array .string)
  | list {element : Shape} (h : Generic element) : Generic (.list element)
  | map {k v : Shape} (hk : Generic k) (hv : Generic v) : Generic (.map k v)

/-- The shapes that a field can have. -/
inductive Accepted : Shape → Prop where
  | scalar {shape : Shape} (h : Scalar shape) : Accepted shape
  | string : Accepted .string
  | object (type : String) : Accepted (.object type)
  | bundle : Accepted .bundle
  | binder : Accepted .binder
  | interface (descriptor : String) : Accepted (.interface descriptor)
  | byteArray : Accepted (.array .byte)
  | intArray : Accepted (.array .int)
  | floatArray : Accepted (.array .float)
  | stringArray : Accepted (.array .string)
  | objectArray (type : String) : Accepted (.array (.object type))
  | byteArrayArray : Accepted (.array (.array .byte))
  | objectList (type : String) : Accepted (.list (.object type))
  | list {element : Shape} (h : Generic element) : Accepted (.list element)
  | objectMap {k : Shape} (hk : Generic k) (type : String) : Accepted (.map k (.object type))
  | map {k v : Shape} (hk : Generic k) (hv : Generic v) : Accepted (.map k v)

/-- The described types in a shape, wherever they occur. -/
def mentioned : Shape → List String
  | .object type => [type]
  | .array element => element.mentioned
  | .list element => element.mentioned
  | .map k v => k.mentioned ++ v.mentioned
  | _ => []

/-! ## Generic shapes -/

/-- A map is generic if the check finds nothing wrong with its keys nor with its values. -/
lemma checkGeneric_map_eq_ok_iff {k v : Shape} :
    (Shape.map k v).checkGeneric = .ok () ↔ k.checkGeneric = .ok () ∧ v.checkGeneric = .ok () := by
  rw [checkGeneric]
  cases k.checkGeneric with
  | error e => exact iff_of_false nofun fun h => nomatch h.1
  | ok _ => exact ⟨fun h => ⟨rfl, h⟩, fun h => h.2⟩

/-- A shape that generic values can take passes the check. -/
lemma Generic.checkGeneric_eq_ok {shape : Shape} (h : shape.Generic) :
    shape.checkGeneric = .ok () := by
  induction h with
  | scalar h => cases h <;> rfl
  | list _ ih => exact ih
  | map _ _ ihk ihv => exact checkGeneric_map_eq_ok_iff.mpr ⟨ihk, ihv⟩
  | _ => rfl

/-- A shape that passes the check can be taken by generic values. -/
lemma generic_of_checkGeneric_eq_ok {shape : Shape} (h : shape.checkGeneric = .ok ()) :
    shape.Generic := by
  induction shape with
  | bool => exact .scalar .bool
  | byte => exact .scalar .byte
  | short => exact .scalar .short
  | int => exact .scalar .int
  | long => exact .scalar .long
  | float => exact .scalar .float
  | double => exact .scalar .double
  | string => exact .string
  | bundle => exact .bundle
  | binder => exact .binder
  | value => exact .value
  | array element =>
    cases element with
    | byte => exact .byteArray
    | int => exact .intArray
    | long => exact .longArray
    | string => exact .stringArray
    | _ => cases h
  | list element ih => exact .list (ih h)
  | map k v ihk ihv =>
    obtain ⟨hk, hv⟩ := checkGeneric_map_eq_ok_iff.mp h
    exact .map (ihk hk) (ihv hv)
  | object | interface | unsupported => cases h

/-- The check lets just the generic shapes pass. -/
lemma checkGeneric_eq_ok_iff {shape : Shape} : shape.checkGeneric = .ok () ↔ shape.Generic :=
  ⟨generic_of_checkGeneric_eq_ok, Generic.checkGeneric_eq_ok⟩

/-- Nothing in a generic shape mentions a described type. -/
lemma Generic.mentioned_eq_nil {shape : Shape} (h : shape.Generic) : shape.mentioned = [] := by
  induction h with
  | scalar h => cases h <;> rfl
  | list _ ih => exact ih
  | map _ _ ihk ihv => rw [mentioned, ihk, ihv, List.append_nil]
  | _ => rfl

/-! ## Layouts -/

/-- Lists that can be written without tags are lists of generic values all the same. -/
lemma generic_of_compactSemantic? {element : Shape} {layout : Semantic}
    (h : element.compactSemantic? = some layout) : element.Generic := by
  cases element with
  | int => exact .scalar .int
  | bool => exact .scalar .bool
  | long => exact .scalar .long
  | float => exact .scalar .float
  | double => exact .scalar .double
  | string => exact .string
  | _ => cases h

/-- An array has a layout exactly if its shape is accepted. -/
lemma resolve_array_eq_ok_iff {element : Shape} {options : FieldOptions} :
    (∃ layout, (Shape.array element).resolve options = .ok layout) ↔
      (Shape.array element).Accepted := by
  constructor
  · rintro ⟨layout, h⟩
    cases element with
    | byte => exact .byteArray
    | int => exact .intArray
    | float => exact .floatArray
    | string => exact .stringArray
    | object type => exact .objectArray type
    | array inner =>
      cases inner with
      | byte => exact .byteArrayArray
      | _ => cases h
    | _ => cases h
  · intro h
    cases h with
    | scalar h => cases h
    | _ => exact ⟨_, rfl⟩

/-- A list has a layout with tags if its elements are objects or generic values. -/
lemma listSemantic_eq_ok_iff {element : Shape} {options : FieldOptions} :
    (∃ layout, element.listSemantic options = .ok layout) ↔ (Shape.list element).Accepted := by
  constructor
  · rintro ⟨layout, h⟩
    unfold listSemantic at h
    split at h
    · exact .objectList _
    · exact .list .string
    · split at h
      · exact .list (checkGeneric_eq_ok_iff.mp ‹_›)
      · cases h
  · intro h
    unfold listSemantic
    cases h with
    | scalar h => cases h
    | objectList type => exact ⟨_, rfl⟩
    | list h =>
      split
      · exact ⟨_, rfl⟩
      · exact ⟨_, rfl⟩
      · rw [h.checkGeneric_eq_ok]
        exact ⟨_, rfl⟩

/-- A list has a layout exactly if its shape is accepted. -/
lemma resolve_list_eq_ok_iff {element : Shape} {options : FieldOptions} :
    (∃ layout, (Shape.list element).resolve options = .ok layout) ↔
      (Shape.list element).Accepted := by
  unfold resolve
  dsimp only
  split
  · exact iff_of_true ⟨_, rfl⟩ (.list (generic_of_compactSemantic? ‹_›))
  · exact listSemantic_eq_ok_iff

/-- The values of a map may be objects or generic values. -/
lemma checkMapValue_eq_ok_iff {v : Shape} :
    v.checkMapValue = .ok () ↔ (∃ type, v = .object type) ∨ v.Generic := by
  cases v with
  | object type => exact iff_of_true rfl (.inl ⟨type, rfl⟩)
  | _ => exact checkGeneric_eq_ok_iff.trans (or_iff_right nofun).symm

/-- A map has a layout exactly if its shape is accepted. -/
lemma resolve_map_eq_ok_iff {k v : Shape} {options : FieldOptions} :
    (∃ layout, (Shape.map k v).resolve options = .ok layout) ↔ (Shape.map k v).Accepted := by
  have hchecks : (∃ layout, (Shape.map k v).resolve options = .ok layout) ↔
      k.checkGeneric = .ok () ∧ v.checkMapValue = .ok () := by
    rw [resolve]
    cases k.checkGeneric with
    | error e => exact iff_of_false (fun h => nomatch h.choose_spec) fun h => nomatch h.1
    | ok _ =>
      cases v.checkMapValue with
      | error e => exact iff_of_false (fun h => nomatch h.choose_spec) fun h => nomatch h.2
      | ok _ => exact iff_of_true ⟨_, rfl⟩ ⟨rfl, rfl⟩
  rw [hchecks, checkGeneric_eq_ok_iff, checkMapValue_eq_ok_iff]
  constructor
  · rintro ⟨hk, ⟨type, rfl⟩ | hv⟩
    · exact .objectMap hk type
    · exact .map hk hv
  · intro h
    cases h with
    | scalar h => cases h
    | objectMap hk type => exact ⟨hk, .inl ⟨type, rfl⟩⟩
    | map hk hv => exact ⟨hk, .inr hv⟩

/-- The accepted shapes are those that have a layout, whatever the options are. -/
lemma resolve_eq_ok_iff (shape : Shape) (options : FieldOptions) :
    (∃ layout, shape.resolve options = .ok layout) ↔ shape.Accepted := by
  cases shape with
  | bool => exact iff_of_true ⟨_, rfl⟩ (.scalar .bool)
  | byte => exact iff_of_true ⟨_, rfl⟩ (.scalar .byte)
  | short => exact iff_of_true ⟨_, rfl⟩ (.scalar .short)
  | int => exact iff_of_true ⟨_, rfl⟩ (.scalar .int)
  | long => exact iff_of_true ⟨_, rfl⟩ (.scalar .long)
  | float => exact iff_of_true ⟨_, rfl⟩ (.scalar .float)
  | double => exact iff_of_true ⟨_, rfl⟩ (.scalar .double)
  | string => exact iff_of_true ⟨_, rfl⟩ .string
  | array element => exact resolve_array_eq_ok_iff
  | list element => exact resolve_list_eq_ok_iff
  | map k v => exact resolve_map_eq_ok_iff
  | object type => exact iff_of_true ⟨_, rfl⟩ (.object type)
  | bundle => exact iff_of_true ⟨_, rfl⟩ .bundle
  | binder => exact iff_of_true ⟨_, rfl⟩ .binder
  | interface descriptor => exact iff_of_true ⟨_, rfl⟩ (.interface descriptor)
  | value =>
    refine iff_of_false nofun fun h => ?_
    cases h with
    | scalar h => cases h
  | unsupported name =>
    refine iff_of_false nofun fun h => ?_
    cases h with
    | scalar h => cases h

/-! ## Hints -/

/-- A shape that generic values can take mentions no described type. -/
lemma Generic.elementHint_eq_none {shape : Shape} (h : shape.Generic) :
    shape.elementHint = none := by
  induction h with
  | scalar h => cases h <;> rfl
  | list _ ih => exact ih
  | map _ _ _ ihv => exact ihv
  | _ => rfl

/-- An accepted shape mentions its hint and nothing else. The keys of a map, where the hint is not
looked for, are generic. -/
lemma Accepted.mentioned_eq {shape : Shape} (h : shape.Accepted) :
    shape.mentioned = shape.elementHint.toList := by
  cases h with
  | scalar h => cases h <;> rfl
  | list h =>
    rw [mentioned, elementHint, h.mentioned_eq_nil, h.elementHint_eq_none]
    rfl
  | objectMap hk type =>
    rw [mentioned, elementHint, hk.mentioned_eq_nil]
    rfl
  | map hk hv =>
    rw [mentioned, elementHint, hk.mentioned_eq_nil, hv.mentioned_eq_nil, hv.elementHint_eq_none]
    rfl
  | _ => rfl

/-- A shape has a layout exactly if it is accepted by the grammar, and no options make a difference
to that. An accepted shape mentions described types in at most one place, where its hint finds the
type; it has no hint exactly if there is none.

**Proof sketch.** Lists are the only shapes for which options choose between layouts, and where
they ask for one without tags the elements are generic anyway. Generic shapes mention no described
type. So in an accepted shape there is at most the one at its end, and in a map it is not among the
keys. -/
theorem resolve_accepts (shape : Shape) :
    (∀ options, (∃ layout, shape.resolve options = .ok layout) ↔ shape.Accepted) ∧
    (∀ options options', (∃ layout, shape.resolve options = .ok layout) ↔
      ∃ layout, shape.resolve options' = .ok layout) ∧
    (shape.Accepted →
      shape.mentioned.length ≤ 1 ∧
      (∀ type, shape.elementHint = some type ↔ type ∈ shape.mentioned) ∧
      (shape.elementHint = none ↔ shape.mentioned = [])) := by
  refine ⟨resolve_eq_ok_iff shape, fun options options' => ?_, fun h => ?_⟩
  · rw [resolve_eq_ok_iff, resolve_eq_ok_iff]
  · rw [h.mentioned_eq]
    cases shape.elementHint <;> simp [eq_comm]

/-- The objects of a map are its hint, however deep its keys nest. -/
theorem resolve_accepts_map :
    (Shape.map (.list (.map .string (.array .long))) (.object "Point")).Accepted ∧
      (Shape.map (.list (.map .string (.array .long))) (.object "Point")).elementHint =
        some "Point" := by
  have haccepted : (Shape.map (.list (.map .string (.array .long))) (.object "Point")).Accepted :=
    .objectMap (.list (.map .string .longArray)) "Point"
  refine ⟨haccepted, ?_⟩
  exact (((resolve_accepts _).2.2 haccepted).2.1 "Point").mpr (List.mem_singleton.mpr rfl)

end Shape

end TaggedParcel
