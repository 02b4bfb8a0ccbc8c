import TaggedParcel.Proofs.Frame.Sequence
import TaggedParcel.Proofs.Object.Fold
import TaggedParcel.Proofs.Object.FrameShape

set_option relaxedAutoImplicit false
set_option autoImplicit false

/-!
# Members without a value

A member without a value travels as a null, and the null replaces whatever a fresh instance holds.
Only a field of fixed width has no null: nothing is written for it, and reading leaves what the
fresh instance holds.

## Main definitions

* `FieldKind.void?` — the member without a value of a field, if it may have none.
* `FieldKind.Keeps` — members whose payload has the width of their field.

## Main results

* `Encode.field_one` — a member is written as one field at most, and how it is without a value.
* `toBytes_sequence`, `ofBytes_sequence` — an object is written as a frame around fields, and read
  as a fold over them.
* `decode_void` — what is written for a member without a value, and what is read of it.
-/

namespace TaggedParcel

/-- The member of a field without a value, if the field may be without one. -/
def FieldKind.void? : FieldKind → Option Member
  | .value _ true => some (.value none)
  | .object _ => some (.object none)
  | .interface _ => some (.interface none)
  | _ => none

/-- Members that keep to the width of their field: a single value is of the kind that was
declared, and if the kind has a meaning of its own, what it writes has the width of the field. -/
def FieldKind.Keeps (type : String) (entry : FieldDescriptor) : FieldKind → Member → Prop
  | .value (.plain kind) _, .value (some v) => v.kind = kind
  | .value (.refined kind) _, .value (some v) => kind.isAbsent v = false →
    ∀ width, entry.semantic.fixedSize = some width → ∀ w,
      (ValueKind.refined kind).write type encodeDepth v .empty = .ok () w → w.bytes.size = width
  | _, _ => True

/-- The field of a member without a value: none if it has fixed width, else a null. -/
def FieldDescriptor.voidSizes (entry : FieldDescriptor) : List (UInt16 × Nat) :=
  if entry.semantic.isFixed then [] else [(entry.id, 0)]

namespace Encode

variable {env : Environment} {nested : ObjectWriter} {type : String} {entry : FieldDescriptor}
  {kind : FieldKind} {m : Member}

/-! ## One field -/

/-- What is written for a member without a value is the field of that. -/
lemma absent_sequence (type : String) (entry : FieldDescriptor) :
    Steady (absent type entry) fun bs _ => FieldSequence entry.voidSizes bs := by
  unfold absent FieldDescriptor.voidSizes
  cases entry.options.nullable with
  | false => exact .throw _
  | true =>
    cases entry.semantic.isFixed with
    | true => exact .of_emits Emits.pure .nil
    | false =>
      have hnull := @FieldSequence.single .fixed entry.id [] (show 0 < 0xFFFF by decide)
      simp only [FieldFormat.header, List.length_nil, Nat.zero_mul, Nat.zero_add,
        List.append_nil] at hnull
      exact .of_emits (nullField_emits entry.id) hnull

/-- Whatever the payload is, a size behind the header makes one field of it. -/
lemma delimited_sequence {id : UInt16} {body : Encode Unit} {objects : List Object}
    (h : Assembles (fun _ _ _ _ => True) 4 body objects) :
    Steady (delimited id body) fun bs _ => ∃ size, FieldSequence [(id, size)] bs := by
  refine (delimited_steady h).mono ?_
  rintro _ _ ⟨payload, rfl, hfits, -⟩
  rw [← List.append_assoc]
  exact ⟨payload.length, @FieldSequence.single .delimited id payload hfits⟩

/-- A payload of the width that the header promises makes one field. -/
lemma packed_sequence {v : FieldValue} {k : ValueKind} {width : Nat}
    (hwidth : entry.semantic.fixedSize = some width)
    (hkeeps : ∀ w, k.write type encodeDepth v .empty = .ok () w → w.bytes.size = width) :
    Steady (Encode.frame (Write.fieldHeader entry.id width) >>= fun _ =>
      payload (k.write type encodeDepth v)) fun bs _ =>
        ∃ size, FieldSequence [(entry.id, size)] bs := by
  obtain ⟨-, hlt⟩ := Semantic.fixedSize_bounds hwidth
  obtain ⟨result, hemits, -⟩ := Write.Steady.valueKind type encodeDepth k v
  have hboth := (fixedHeader_emits hwidth).bind (Emits.onWriter CodecError.field hemits)
  cases result with
  | error e => exact .of_error hboth
  | ok bs =>
    have hlength : bs.length = width := by
      rw [← hkeeps _ (hemits .empty)]
      simp [Writer.append, Writer.empty]
    refine .of_emits hboth ⟨bs.length, ?_⟩
    rw [← hlength]
    exact @FieldSequence.single .fixed entry.id bs (show bs.length < sizeEscape by omega)

/-- A single value that keeps to the width of its field writes so many bytes. -/
lemma size_of_keeps {k : ValueKind} {optional : Bool} {v : FieldValue} {width : Nat}
    (hlayout : k.shape.resolve entry.options = .ok entry.semantic)
    (hkeeps : (FieldKind.value k optional).Keeps type entry (.value (some v)))
    (hpresent : k.isAbsent v = false) (hwidth : entry.semantic.fixedSize = some width) {w : Writer}
    (hwrite : k.write type encodeDepth v .empty = .ok () w) : w.bytes.size = width := by
  cases k with
  | plain kind =>
    have hkind : v.kind = kind := hkeeps
    have hlength := FieldValue.length_write (hkind ▸ hlayout) hwidth hwrite
    rw [show Writer.empty.position = 0 from rfl, Nat.zero_add] at hlength
    exact hlength
  | refined kind => exact hkeeps hpresent width hwidth w hwrite
  | uncarried shape => cases hwrite

/-- What a member is written as: one field at most, and without a value the field of that. -/
def WritesOne (entry : FieldDescriptor) (kind : FieldKind) (m : Member) (write : Encode Unit) :
    Prop :=
  Steady write fun bs _ => ∃ sizes, FieldSequence sizes bs ∧
    (sizes.map Prod.fst).Sublist [entry.id] ∧ (kind.void? = some m → sizes = entry.voidSizes)

/-- A member without a value is written as one field at most. -/
lemma absent_one : WritesOne entry kind m (absent type entry) := by
  refine (absent_sequence type entry).mono fun bs _ hsizes => ⟨_, hsizes, ?_, fun _ => rfl⟩
  unfold FieldDescriptor.voidSizes
  split
  · exact List.nil_sublist _
  · exact .refl _

/-- A member that is written as one field is, if it has a value. -/
lemma present_one {write : Encode Unit} (hvalue : kind.void? ≠ some m)
    (h : Steady write fun bs _ => ∃ size, FieldSequence [(entry.id, size)] bs) :
    WritesOne entry kind m write :=
  h.mono fun _ _ ⟨_, hsizes⟩ => ⟨_, hsizes, .refl _, fun hvoid => absurd hvoid hvalue⟩

/-- A member that does not belong into its field is not written. -/
lemma mismatch_one (hfield : field env nested type entry kind m =
    throw (.field (.typeMismatch kind.memberName m.kindName))) :
    WritesOne entry kind m (field env nested type entry kind m) := by
  rw [hfield]
  exact .throw _

/-- A single value is written as one field at most. -/
lemma single_one {k : ValueKind} {optional : Bool} {v : FieldValue}
    (hlayout : k.shape.resolve entry.options = .ok entry.semantic)
    (hkeeps : (FieldKind.value k optional).Keeps type entry (.value (some v))) :
    WritesOne entry (.value k optional) (.value (some v)) (single type entry k v) := by
  have hvalue : (FieldKind.value k optional).void? ≠ some (.value (some v)) := by
    cases optional <;> simp [FieldKind.void?]
  unfold single
  cases hpresent : k.isAbsent v with
  | true => exact absent_one
  | false =>
    rw [if_neg (by simp)]
    cases hwidth : entry.semantic.fixedSize with
    | some width =>
      exact present_one hvalue
        (packed_sequence hwidth fun w => size_of_keeps hlayout hkeeps hpresent hwidth)
    | none =>
      exact present_one hvalue
        (delimited_sequence (.payload (Write.Steady.valueKind type encodeDepth k v)))

/-- Every member is written as one field at most. -/
theorem field_one
    (hnested : ∀ inner o, Assembles (fun _ _ _ _ => True) 4 (nested inner o) [o])
    (hlayout : kind.shape.resolve entry.options = .ok entry.semantic)
    (hkeeps : kind.Keeps type entry m) :
    WritesOne entry kind m (field env nested type entry kind m) := by
  cases kind with
  | value k optional =>
    cases m with
    | value v =>
      cases v with
      | some v => exact single_one hlayout hkeeps
      | none => exact absent_one
    | _ => exact mismatch_one rfl
  | list element =>
    cases m with
    | list items =>
      exact present_one nofun (delimited_sequence
        (.payload (Write.Steady.list element _ encodeDepth items)))
    | _ => exact mismatch_one rfl
  | map k v =>
    cases m with
    | map entries =>
      exact present_one nofun (delimited_sequence
        (.payload (Write.Steady.map k v encodeDepth entries)))
    | _ => exact mismatch_one rfl
  | object inner =>
    cases m with
    | object o =>
      cases o with
      | some o => exact present_one nofun (delimited_sequence (hnested inner o))
      | none => exact absent_one
    | _ => exact mismatch_one rfl
  | objectArray inner =>
    cases m with
    | objectArray items =>
      exact present_one nofun (delimited_sequence (objectArray_assembles (hnested inner) items))
    | _ => exact mismatch_one rfl
  | objectList inner =>
    cases m with
    | objectList items =>
      exact present_one nofun
        (delimited_sequence (objectList_assembles (hnested inner) _ items))
    | _ => exact mismatch_one rfl
  | objectMap k inner =>
    cases m with
    | objectMap entries =>
      exact Steady.schema fun found _ => present_one nofun
        (delimited_sequence (objectMap_assembles (hnested inner) k found.name entries))
    | _ => exact mismatch_one rfl
  | interface proxy =>
    cases m with
    | interface handle =>
      cases handle with
      | some handle =>
        exact present_one nofun
          (delimited_sequence (.payload (Write.Steady.binder handle)))
      | none => exact absent_one
    | _ => exact mismatch_one rfl

/-! ## All fields -/

/-- Without a value, a member of any kind is written in the same way. -/
lemma field_void (h : kind.void? = some m) :
    field env nested type entry kind m = absent type entry := by
  cases kind with
  | value k optional =>
    cases optional <;> cases h
    rfl
  | object | interface =>
    cases h
    rfl
  | _ => cases h

/-- A field without a value fails only where it must have one, and that is fatal. -/
lemma absent_fatal {told : Report} {e : CodecError}
    (h : Emits (absent type entry) told (.error e)) : e.isFatal = true := by
  obtain ⟨bs, hrun⟩ := h .empty []
  unfold absent at hrun
  cases hnullable : entry.options.nullable with
  | false =>
    rw [hnullable] at hrun
    injection hrun with he
    rw [← he]
    rfl
  | true =>
    rw [hnullable] at hrun
    cases hfixed : entry.semantic.isFixed <;> rw [hfixed] at hrun <;> cases hrun

section Fields

variable (env) {o : Object}
  (hnested : ∀ inner o, Assembles (fun _ _ _ _ => True) 4 (nested inner o) [o])
include hnested

/-- The field of an entry is written or left out. Without a value it is not left out, unless it
has fixed width. -/
lemma orOmit_sequence {entry : FieldDescriptor × FieldKind}
    (hlayout : entry.2.shape.resolve entry.1.options = .ok entry.1.semantic)
    (hkeeps : ∀ m, o.get? entry.1.id = some m → entry.2.Keeps type entry.1 m) :
    Steady (orOmit type entry.1 (member env nested type o entry)) fun bs _ => ∃ sizes,
      FieldSequence sizes bs ∧ (sizes.map Prod.fst).Sublist [entry.1.id] ∧
      ∀ m, o.get? entry.1.id = some m → entry.2.void? = some m → sizes = entry.1.voidSizes := by
  have hmember : Steady (member env nested type o entry) fun bs _ => ∃ sizes,
      FieldSequence sizes bs ∧ (sizes.map Prod.fst).Sublist [entry.1.id] ∧
      ∀ m, o.get? entry.1.id = some m → entry.2.void? = some m → sizes = entry.1.voidSizes := by
    unfold member
    cases hm : o.get? entry.1.id with
    | none => exact .throw _
    | some m =>
      refine (field_one hnested hlayout (hkeeps m hm)).mono ?_
      rintro bs _ ⟨sizes, hsizes, hids, hvoid⟩
      refine ⟨sizes, hsizes, hids, fun m' hm' hvoid' => hvoid ?_⟩
      cases hm'
      exact hvoid'
  refine (hmember.orOmit type entry.1).mono ?_
  rintro bs _ (hwritten | ⟨inner, e, hfails, hmild, rfl, -⟩)
  · exact hwritten
  · refine ⟨[], .nil, List.nil_sublist _, fun m hm hvoid => ?_⟩
    -- a member without a value does not fail in this way
    have hrun : member env nested type o entry = absent type entry.1 := by
      unfold member
      rw [hm]
      exact field_void hvoid
    rw [hrun] at hfails
    rw [absent_fatal hfails] at hmild
    cases hmild

/-- The fields of an object are written one behind the other, and under the id of a member
without a value there is the field of that. -/
lemma fields_sequence {entries : List (FieldDescriptor × FieldKind)}
    (hlayout : ∀ entry ∈ entries, entry.2.shape.resolve entry.1.options = .ok entry.1.semantic)
    (hkeeps : ∀ entry ∈ entries, ∀ m, o.get? entry.1.id = some m → entry.2.Keeps type entry.1 m)
    (hnodup : (entries.map fun entry => entry.1.id).Nodup) :
    Steady (each (fun entry => orOmit type entry.1 (member env nested type o entry)) entries)
      fun bs _ => ∃ sizes, FieldSequence sizes bs ∧
        (sizes.map Prod.fst).Sublist (entries.map fun entry => entry.1.id) ∧
        ∀ entry ∈ entries, ∀ m, o.get? entry.1.id = some m → entry.2.void? = some m →
          sizes.filter (fun field => field.1 = entry.1.id) = entry.1.voidSizes := by
  induction entries with
  | nil => exact .of_emits Emits.pure ⟨[], .nil, .refl _, by simp⟩
  | cons entry rest ih =>
    rw [List.forall_mem_cons] at hlayout hkeeps
    rw [List.map_cons, List.nodup_cons] at hnodup
    have hfirst := orOmit_sequence env hnested hlayout.1 hkeeps.1
    have hrest := ih hlayout.2 hkeeps.2 hnodup.2
    rw [each_cons]
    refine (hfirst.bind hrest).mono ?_
    rintro _ _ ⟨bs, bs', _, _, rfl, -, ⟨sizes, hsizes, hids, hvoid⟩,
      sizes', hsizes', hids', hvoid'⟩
    refine ⟨sizes ++ sizes', hsizes.append hsizes', ?_, ?_⟩
    · rw [List.map_append, List.map_cons, ← List.singleton_append]
      exact hids.append hids'
    · have hfirst : ∀ field ∈ sizes, field.1 = entry.1.id := fun field hfield =>
        List.mem_singleton.mp (hids.subset (List.mem_map_of_mem hfield))
      have hlater : ∀ field ∈ sizes', field.1 ∈ rest.map fun entry => entry.1.id :=
        fun field hfield => hids'.subset (List.mem_map_of_mem hfield)
      rw [List.forall_mem_cons]
      refine ⟨fun m hm hm' => ?_, fun later hmem m hm hm' => ?_⟩
      · have hnone : sizes'.filter (fun field => field.1 = entry.1.id) = [] := by
          simp only [List.filter_eq_nil_iff, decide_eq_true_eq]
          exact fun field hfield hid => hnodup.1 (hid ▸ hlater field hfield)
        rw [List.filter_append, hnone, List.append_nil, List.filter_eq_self.mpr
          (by simpa using hfirst), hvoid m hm hm']
      · have hnone : sizes.filter (fun field => field.1 = later.1.id) = [] := by
          simp only [List.filter_eq_nil_iff, decide_eq_true_eq]
          intro field hfield hid
          rw [hfirst field hfield] at hid
          exact hnodup.1 (hid ▸ List.mem_map_of_mem hmem)
        rw [List.filter_append, hnone, List.nil_append, hvoid' later hmem m hm hm']

end Fields

/-- An object, written in another one, is whole words with this object in them. -/
lemma encodeObject_assembles {frame : Nat → Object → List UInt8 → Report → Prop} {levels : Nat}
    {type : String} {o : Object}
    (h : Steady (encodeObject env levels type o) fun bs told => ∀ start, frame start o bs told) :
    Assembles frame 4 (encodeObject env levels type o) [o] := by
  refine ((encodeObject_form env levels type o).and h).mono ?_
  rintro bs told ⟨⟨hwords, hleast, -⟩, hframe⟩
  refine ⟨hwords, hleast, fun start _ => ?_⟩
  have hpieces : Pieces frame start [o] (bs ++ []) (told ++ []) := .object (hframe start) .nil
  rw [List.append_nil, List.append_nil] at hpieces
  exact hpieces

/-- Written in another one, an object is whole words, whatever is known of it. -/
lemma encodeObject_whole (env : Environment) (levels : Nat) (type : String) (o : Object) :
    Assembles (fun _ _ _ _ => True) 4 (encodeObject env levels type o) [o] :=
  encodeObject_assembles ((encodeObject_form env levels type o).mono fun _ _ _ _ => trivial)

end Encode

open Encode

/-- The bytes of an object are a frame around fields. Under the id of a member without a value
there is the field of that, and no other. -/
lemma toBytes_sequence {types : List TypeDecl} {interfaces : InterfaceRegistry} {type : String}
    {schema : Schema} {o : Object} {bytes : Array UInt8}
    (hschema : (Environment.ofTypes types interfaces).schemaOf type = .ok schema)
    (hkeeps : ∀ entry ∈ schema.entries, ∀ m, o.get? entry.1.id = some m →
      entry.2.Keeps schema.name entry.1 m)
    (h : toBytes (.ofTypes types interfaces) type o = .ok bytes) :
    ∃ sizes body, bytes.toList = FieldFormat.delimited.header objectMagic body.length ++ body ∧
      body.length < UInt32.size ∧ FieldSequence sizes body ∧
      ∀ entry ∈ schema.entries, ∀ m, o.get? entry.1.id = some m → entry.2.void? = some m →
        sizes.filter (fun field => field.1 = entry.1.id) = entry.1.voidSizes := by
  have hwell := Environment.ofTypes_wellFormed hschema
  have hfields := fields_sequence (.ofTypes types interfaces)
    (encodeObject_whole (.ofTypes types interfaces) 31)
    (fun entry hentry => hwell.resolve_eq hentry) hkeeps hwell.entries_nodup
  obtain ⟨told, result, hemits, hform⟩ := objectFrame_steady hfields
  have hobject :
      Emits (encodeObject (.ofTypes types interfaces) encodeDepth type o) told result := by
    have hrun : encodeObject (.ofTypes types interfaces) encodeDepth type o =
        objectFrame (.ofTypes types interfaces)
          (encodeObject (.ofTypes types interfaces) 31) schema o := by
      show (Encode.schema _ type >>= _) = _
      unfold Encode.schema
      rw [hschema]
      rfl
    rw [hrun]
    exact hemits
  unfold toBytes at h
  rw [encode_emits hobject .empty] at h
  cases result with
  | error e => cases h
  | ok bs =>
    cases h
    obtain ⟨body, hbs, hfits, sizes, hsizes, -, hvoid⟩ := hform bs rfl
    refine ⟨sizes, body, ?_, hfits, hsizes, hvoid⟩
    rw [FieldFormat.header, List.append_assoc, ← hbs]
    simp [Writer.append, Writer.empty]

/-! ## What is read -/

/-- A null brings the member without a value. -/
lemma Decode.fieldEffect_void {env : Environment} {limits : Limits} {nested : ObjectReader}
    {schema : Schema} {bytes : Array UInt8} {header : FieldHeader} {entry : FieldDescriptor}
    {kind : FieldKind} {m : Member} {effect : FieldEffect}
    (hentry : schema.entry? header.id = some (entry, kind)) (hvoid : kind.void? = some m)
    (hnull : header.size = 0)
    (h : fieldEffect env limits nested schema bytes header = .ok effect) :
    effect.member? = some m := by
  have hheader : header.isNull = true := beq_iff_eq.mpr hnull
  have hmember : member env limits nested schema.name header entry kind
      ⟨header.window bytes, []⟩ = .ok m ⟨header.window bytes, []⟩ := by
    cases kind with
    | value k optional =>
      cases optional <;> cases hvoid
      simp only [member, single, hheader]
      rfl
    | object | interface =>
      cases hvoid
      simp only [member, field, hheader]
      rfl
    | _ => cases hvoid
  unfold fieldEffect at h
  rw [hentry] at h
  dsimp only at h
  rw [hmember] at h
  cases h
  rfl

namespace FieldEffect

variable {id : UInt16} {fields : List (FieldHeader × FieldEffect)}

/-- Without a field of an id there is no last member. -/
lemma lastMember?_eq_none (h : ∀ field ∈ fields, field.1.id ≠ id) :
    lastMember? id fields = none := by
  induction fields with
  | nil => rfl
  | cons field rest ih =>
    rw [List.forall_mem_cons] at h
    rw [lastMember?, ih h.2, if_neg h.1]
    rfl

/-- The last member is the one that all fields of the id bring. -/
lemma lastMember?_eq_some {m : Member}
    (h : ∀ field ∈ fields, field.1.id = id → field.2.member? = some m)
    (hfield : ∃ field ∈ fields, field.1.id = id) : lastMember? id fields = some m := by
  induction fields with
  | nil => simp at hfield
  | cons field rest ih =>
    rw [List.forall_mem_cons] at h
    by_cases hrest : ∃ field ∈ rest, field.1.id = id
    · rw [lastMember?, ih h.2 hrest]
      rfl
    · have hnone : lastMember? id rest = none :=
        lastMember?_eq_none fun field hmem hid => hrest ⟨field, hmem, hid⟩
      have hid : field.1.id = id := by
        obtain ⟨other, hmem, hid⟩ := hfield
        rcases List.mem_cons.mp hmem with rfl | hmem
        · exact hid
        · exact absurd ⟨other, hmem, hid⟩ hrest
      rw [lastMember?, hnone, if_pos hid, h.1 hid]
      rfl

end FieldEffect

/-- The last member that fields bring under the id of a member without a value, if these are the
fields of that: none if the width is fixed, else the member without a value. -/
lemma Decode.lastMember?_void {env : Environment} {limits : Limits} {nested : ObjectReader}
    {schema : Schema} {bytes : Array UInt8} {entry : FieldDescriptor} {kind : FieldKind}
    {m : Member} {fields : List (FieldHeader × FieldEffect)}
    (hentry : schema.entry? entry.id = some (entry, kind)) (hvoid : kind.void? = some m)
    (heffects : ∀ field ∈ fields,
      fieldEffect env limits nested schema bytes field.1 = .ok field.2)
    (hsizes : (fields.map fun field => (field.1.id, field.1.size)).filter
      (fun field => field.1 = entry.id) = entry.voidSizes) :
    FieldEffect.lastMember? entry.id fields =
      if entry.semantic.isFixed then none else some m := by
  have hmem : ∀ size, (entry.id, size) ∈ entry.voidSizes ↔
      ∃ field ∈ fields, field.1.id = entry.id ∧ field.1.size = size := by
    intro size
    simp [← hsizes]
  unfold FieldDescriptor.voidSizes at hmem
  -- of fixed width there is no field under the id, otherwise every field under it is a null
  cases hfixed : entry.semantic.isFixed with
  | true =>
    refine FieldEffect.lastMember?_eq_none fun field hfield hid => ?_
    simpa [hfixed] using (hmem field.1.size).mpr ⟨field, hfield, hid, rfl⟩
  | false =>
    refine FieldEffect.lastMember?_eq_some (fun field hfield hid => ?_) ?_
    · have hnull : field.1.size = 0 := by
        simpa [hfixed] using (hmem field.1.size).mpr ⟨field, hfield, hid, rfl⟩
      exact fieldEffect_void (hid.symm ▸ hentry) hvoid hnull (heffects field hfield)
    · obtain ⟨field, hfield, hid, -⟩ := (hmem 0).mp (by simp [hfixed])
      exact ⟨field, hfield, hid⟩

/-- What is read of a frame around fields is the fold over fields with the same ids and sizes, from
the fresh instance. -/
lemma ofBytes_sequence {env : Environment} {type : String} {schema : Schema} {fresh o' : Object}
    {bytes : Array UInt8} {sizes : List (UInt16 × Nat)} {body : List UInt8}
    (hschema : env.schemaOf type = .ok schema) (hfresh : schema.construct = .ok fresh)
    (hbytes : bytes.toList = FieldFormat.delimited.header objectMagic body.length ++ body)
    (hfits : body.length < UInt32.size) (hsizes : FieldSequence sizes body)
    (hread : ofBytes env type bytes = .ok o') :
    ∃ levels fields, fields.map (fun field => (field.1.id, field.1.size)) = sizes ∧
      (∀ field ∈ fields, Decode.fieldEffect env .standard
        (decodeObject env .standard levels) schema bytes field.1 = .ok field.2) ∧
      o' = (FieldEffect.fold fields (fresh, [])).1 := by
  have hsize : bytes.size = 8 + body.length := by
    rw [← Array.length_toList, hbytes, List.length_append, FieldFormat.length_header]
    rfl
  have hmax : 8 + UInt32.size ≤ maxBuffer := by decide
  obtain ⟨frame, houtline, hheaders⟩ := hsizes.outline hbytes hfits
  unfold ofBytes at hread
  cases hdecode : decode env .standard type (.ofBytes bytes) with
  | error e r => rw [hdecode] at hread; cases hread
  | ok result r =>
    rw [hdecode] at hread
    cases hread
    obtain ⟨levels, schema', fresh', frame', fields, -, hschema', hfresh', houtline', hfst,
      heffects, hfold⟩ := decode_ok_cases (Reader.sound_ofBytes (by omega)) hdecode
    cases hschema.symm.trans hschema'
    cases hfresh.symm.trans hfresh'
    injection houtline.symm.trans houtline' with hframe
    subst hframe
    refine ⟨levels, fields, ?_, fun field hfield => (heffects field hfield).2,
      congrArg Prod.fst hfold⟩
    rw [← hheaders, ← hfst, List.map_map]
    rfl

/-- Nothing is written for a member without a value if its field has fixed width, else one field of
size zero. What is read of it is the member without a value, whatever the fresh instance holds,
unless the width is fixed: then it is what the fresh instance holds.

**Proof sketch.** Under the id of the member the frame has a null, or nothing if the width is
fixed, and no other field, since ids are distinct and every payload is as long as its header says.
A null is read as the member without a value, and no other field changes the member. -/
theorem decode_void {types : List TypeDecl} {interfaces : InterfaceRegistry} {type : String}
    {schema : Schema} {fresh o : Object} {bytes : Array UInt8} {id : UInt16}
    {entry : FieldDescriptor} {kind : FieldKind} {m held : Member}
    (hschema : (Environment.ofTypes types interfaces).schemaOf type = .ok schema)
    (hfresh : schema.construct = .ok fresh) (hheld : fresh.get? id = some held)
    (hentry : schema.entry? id = some (entry, kind)) (hvoid : kind.void? = some m)
    (hmember : o.get? id = some m)
    (hkeeps : ∀ entry ∈ schema.entries, ∀ m, o.get? entry.1.id = some m →
      entry.2.Keeps schema.name entry.1 m)
    (hwrite : toBytes (.ofTypes types interfaces) type o = .ok bytes) :
    FieldsUnder id (if entry.semantic.isFixed then [] else [0]) bytes ∧
    ∀ o', ofBytes (.ofTypes types interfaces) type bytes = .ok o' →
      o'.get? id = some (if entry.semantic.isFixed then held else m) := by
  obtain ⟨sizes, body, hbytes, hfits, hsizes, hvoids⟩ := toBytes_sequence hschema hkeeps hwrite
  obtain rfl := Decode.entry?_id hentry
  have hmem : (entry, kind) ∈ schema.entries := by
    obtain ⟨hfield, hkind⟩ := Decode.entry?_eq_some hentry
    exact List.mem_filterMap.mpr ⟨entry, List.mem_of_find?_eq_some hfield, by rw [hkind]; rfl⟩
  have hfilter := hvoids (entry, kind) hmem m hmember hvoid
  refine ⟨⟨sizes, body, hbytes, hsizes, ?_⟩, fun o' hread => ?_⟩
  · rw [hfilter]
    unfold FieldDescriptor.voidSizes
    cases entry.semantic.isFixed <;> rfl
  · obtain ⟨levels, fields, hfields, heffects, rfl⟩ :=
      ofBytes_sequence hschema hfresh hbytes hfits hsizes hread
    rw [FieldEffect.get?_fold, hheld,
      Decode.lastMember?_void hentry hvoid heffects (hfields ▸ hfilter)]
    cases entry.semantic.isFixed <;> rfl

namespace Sample

/-- A number and a text that may be absent, and that fresh instances have. -/
def held : TypeDecl :=
  filled "Held" none
    [.field 1 "count" (optional .int) { nullable := true },
    .field 2 "label" (optional .string) { nullable := true }]
    [(1, .value (some (.int 6))), (2, .value (some (.string "x")))]

/-- A number that is declared to be wider than it is written. -/
def narrow : RefinedValue where
  carrier := .int
  shape := .long
  zero := .int 0
  isAbsent _ := false
  toPayload _ v := v
  objection? _ := none
  ofPayload _ _ v := .ok (some v)

/-- A number with too short a payload, and behind it a text that fresh instances have. -/
def overlap : TypeDecl :=
  filled "Overlap" none
    [.field 1 "count" (.value (.refined narrow) false) {},
    .field 2 "label" (optional .string) { nullable := true }]
    [(2, .value (some (.string "x")))]

/-- The types whose members are without values below. -/
def absences : Environment :=
  .ofTypes [held, overlap] .empty

/-- Two members without values. -/
def nothingHeld : Object :=
  ⟨[(1, .value none), (2, .value none)]⟩

/-- A frame with a null for the text, and nothing for the number. -/
def nothingHeldFrame : Array UInt8 :=
  #[0x45, 0x4F, 0xFF, 0xFF, 4, 0, 0, 0, 2, 0, 0, 0]

/-- A number, and a text without a value. -/
def overlapping : Object :=
  ⟨[(1, .value (some (.int 5))), (2, .value none)]⟩

/-- The field of the number, which takes up the null for the text. -/
def overlappingFrame : Array UInt8 :=
  #[0x45, 0x4F, 0xFF, 0xFF, 12, 0, 0, 0, 1, 0, 8, 0, 5, 0, 0, 0, 2, 0, 0, 0]

/-- The schema of the type of the number and the text. -/
def heldSchema : Schema :=
  ⟨⟨"Held", [⟨1, "count", .int, .int, none, { nullable := true }⟩,
      ⟨2, "label", .string, .string, none, { nullable := true }⟩], true⟩,
    [(1, .value (.plain .int) true), (2, .value (.plain .string) true)],
    some ⟨[(1, .value (some (.int 6))), (2, .value (some (.string "x")))]⟩⟩

/-- The schema of the type whose payloads overlap. -/
def overlapSchema : Schema :=
  ⟨⟨"Overlap", [⟨1, "count", .long, .long, none, {}⟩,
      ⟨2, "label", .string, .string, none, { nullable := true }⟩], true⟩,
    [(1, .value (.refined narrow) false), (2, .value (.plain .string) true)],
    some ⟨[(1, .value (some (.int 0))), (2, .value (some (.string "x")))]⟩⟩

/-- What is read where nothing was held. -/
def nothingHeldRead : Object :=
  ⟨[(1, .value (some (.int 6))), (2, .value none)]⟩

/-- What is read of the number and the text. -/
def overlappingRead : Object :=
  ⟨[(1, .value (some (.int 5))), (2, .value (some (.string "x")))]⟩

end Sample

/-- Of two members without values, the number is not written and comes back as the fresh instance
has it, and the text is a null and comes back without a value. -/
theorem decode_void_held :
    toBytes Sample.absences "Held" Sample.nothingHeld =
        .ok #[0x45, 0x4F, 0xFF, 0xFF, 4, 0, 0, 0, 2, 0, 0, 0] ∧
      ofBytes Sample.absences "Held" #[0x45, 0x4F, 0xFF, 0xFF, 4, 0, 0, 0, 2, 0, 0, 0] =
        .ok Sample.nothingHeldRead ∧
      (FieldsUnder 1 [] Sample.nothingHeldFrame ∧
        Sample.nothingHeldRead.get? 1 = some (.value (some (.int 6)))) ∧
      FieldsUnder 2 [0] Sample.nothingHeldFrame ∧
        Sample.nothingHeldRead.get? 2 = some (.value none) := by
  have hschema : Sample.absences.schemaOf "Held" = .ok Sample.heldSchema := rfl
  have hwrite : toBytes Sample.absences "Held" Sample.nothingHeld = .ok Sample.nothingHeldFrame :=
    rfl
  have hread : ofBytes Sample.absences "Held" Sample.nothingHeldFrame =
      .ok Sample.nothingHeldRead := rfl
  have hfresh : Sample.heldSchema.construct =
      .ok ⟨[(1, .value (some (.int 6))), (2, .value (some (.string "x")))]⟩ := rfl
  have hcount : Sample.heldSchema.entry? 1 = some
      (⟨1, "count", .int, .int, none, { nullable := true }⟩, .value (.plain .int) true) := rfl
  have hlabel : Sample.heldSchema.entry? 2 = some
      (⟨2, "label", .string, .string, none, { nullable := true }⟩,
        .value (.plain .string) true) := rfl
  have hkeeps : ∀ entry ∈ Sample.heldSchema.entries, ∀ m,
      Sample.nothingHeld.get? entry.1.id = some m → entry.2.Keeps "Held" entry.1 m := by
    intro entry hentry m hm
    rw [show Sample.heldSchema.entries =
      [(⟨1, "count", .int, .int, none, { nullable := true }⟩, .value (.plain .int) true),
        (⟨2, "label", .string, .string, none, { nullable := true }⟩,
          .value (.plain .string) true)] from rfl] at hentry
    rcases List.mem_pair.mp hentry with rfl | rfl
    all_goals
      injection hm with hm
      subst hm
      trivial
  obtain ⟨hnothing, hcome⟩ := decode_void hschema hfresh rfl hcount rfl rfl hkeeps hwrite
  obtain ⟨hnull, hcome'⟩ := decode_void hschema hfresh rfl hlabel rfl rfl hkeeps hwrite
  exact ⟨hwrite, hread, ⟨hnothing, hcome _ hread⟩, hnull, hcome' _ hread⟩

/-- A member without a value may come back with one: in a field of fixed width, and in any field
if the payload of another one is not as long as it was declared. -/
theorem decode_void_not_void :
    (Sample.absences.schemaOf "Held" = .ok Sample.heldSchema ∧
      Sample.heldSchema.entry? 1 = some
        (⟨1, "count", .int, .int, none, { nullable := true }⟩, .value (.plain .int) true) ∧
      Sample.nothingHeld.get? 1 = some (.value none) ∧
      toBytes Sample.absences "Held" Sample.nothingHeld = .ok Sample.nothingHeldFrame ∧
      ofBytes Sample.absences "Held" Sample.nothingHeldFrame = .ok Sample.nothingHeldRead ∧
      Sample.nothingHeldRead.get? 1 = some (.value (some (.int 6)))) ∧
    (Sample.absences.schemaOf "Overlap" = .ok Sample.overlapSchema ∧
      Sample.overlapSchema.entry? 2 = some
        (⟨2, "label", .string, .string, none, { nullable := true }⟩,
          .value (.plain .string) true) ∧
      Sample.overlapping.get? 2 = some (.value none) ∧
      toBytes Sample.absences "Overlap" Sample.overlapping = .ok Sample.overlappingFrame ∧
      ofBytes Sample.absences "Overlap" Sample.overlappingFrame = .ok Sample.overlappingRead ∧
      Sample.overlappingRead.get? 2 = some (.value (some (.string "x")))) :=
  ⟨⟨rfl, rfl, rfl, rfl, rfl, rfl⟩, rfl, rfl, rfl, rfl, rfl, rfl⟩

end TaggedParcel
