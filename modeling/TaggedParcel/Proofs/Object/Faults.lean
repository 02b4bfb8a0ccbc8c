import TaggedParcel.Proofs.Object.FrameShape
import TaggedParcel.Proofs.Schema.Kinds
import TaggedParcel.Proofs.Value.Faults

set_option relaxedAutoImplicit false
set_option autoImplicit false

/-!
# How writing an object fails

Every object of described types can be written, except for five reasons: a schema is missing, a
member has no value although it must, objects nest too deep, generic values do, or a length does
not fit its word. The first three end the whole. The other two end the field in which they arise,
which is left out; only where the frame of an object is itself too long does its length end the
object. A value never meets a writer for another kind, and a place that was reserved for a size is
there when the size is known, whatever was taken back in between.

## Main definitions

* `CodecError.Legitimate` — the five reasons.
* `Diagnostic.Omission` — what is told of a field that was left out.
* `Encode.FailsFor` — computations that fail for certain reasons only.
* `FieldKind.BuiltIn` — kinds of fields all of whose values come with the format.
* `FieldKind.Admits`, `Object.OfType` — the values of a kind, and the objects of a type.

## Main results

* `Encode.FailsFor.orOmit` — what becomes of a failure inside a field.
* `Encode.FailsFor.field` — every value of a kind meets a writer for it.
* `encodeObject_failsFor` — objects fail for these reasons only, at every level.
* `encode_legitimate` — so does writing, and a field is left out for no others.
-/

namespace TaggedParcel

/-- The reasons for which writing fails, where `deep` says whether a generic value in it nests too
deep. -/
inductive CodecError.Legitimate (deep : Prop) : CodecError → Prop where
  /-- The type, or one of an object inside, has no usable description. -/
  | schema (e : SchemaError) : Legitimate deep (.schema e)
  /-- A member that must have a value has none. -/
  | missingRequiredField (type field : String) : Legitimate deep (.missingRequiredField type field)
  /-- There is one object too many inside another. -/
  | depthExceeded : Legitimate deep (.depthExceeded (encodeDepth + 1) encodeDepth)
  /-- A generic value nests too deep. -/
  | tooDeep (h : deep) :
    Legitimate deep (.field (.limit ⟨.depth, encodeDepth, encodeDepth + 1⟩))
  /-- A length does not fit its word. -/
  | tooLong (length : Nat) : Legitimate deep (.field (.buffer (.lengthOverflow length)))

/-- What is told of a field that was left out: a generic value in it nests too deep, or a length
does not fit its word. -/
inductive Diagnostic.Omission : Diagnostic → Prop where
  /-- A generic value nests too deep. -/
  | tooDeep (type field : String) (id : UInt16) :
    Omission (.fieldOmitted type field id
      (CodecError.field (.limit ⟨.depth, encodeDepth, encodeDepth + 1⟩)).message)
  /-- A length does not fit its word. -/
  | tooLong (type field : String) (id : UInt16) (length : Nat) :
    Omission (.fieldOmitted type field id
      (CodecError.field (.buffer (.lengthOverflow length))).message)

/-- The generic values in a member, those in its objects left aside. -/
def Member.values : Member → List Value
  | .value (some v) => v.values
  | .list items => items
  | .map entries => entries.flatMap fun entry => [entry.1, entry.2]
  | .objectMap entries => entries.map Prod.fst
  | _ => []

/-- A member in which a generic value nests deeper than may be written. -/
def Member.TooDeep (m : Member) : Prop :=
  Value.AnyDeeper encodeDepth m.values

/-- Kinds of fields all of whose values and elements are of kinds that come with the format. -/
def FieldKind.BuiltIn : FieldKind → Prop
  | .value kind _ => kind.BuiltIn
  | .list element => element.Own
  | .map k v => k.Own ∧ v.Own
  | .objectMap k _ => k.Own
  | .object _ | .objectArray _ | .objectList _ | .interface _ => True

/-- The members that are values of a kind: single values are of the kind that was declared, and so
are elements. Of the objects in a member nothing is asked. -/
def FieldKind.Admits : FieldKind → Member → Prop
  | .value (.plain kind) _, .value v => ∀ x ∈ v, x.kind = kind
  | .value (.uncarried _) _, .value _ => True
  | .list element, .list items => ∀ v ∈ items, element.ofValue v = .ok v
  | .map k v, .map entries =>
    ∀ entry ∈ entries, k.ofValue entry.1 = .ok entry.1 ∧ v.ofValue entry.2 = .ok entry.2
  | .object _, .object _ | .objectArray _, .objectArray _ | .objectList _, .objectList _ => True
  | .objectMap k _, .objectMap entries => ∀ entry ∈ entries, k.ofValue entry.1 = .ok entry.1
  | .interface _, .interface _ => True
  | _, _ => False

/-- An object of a type: it has a member for every field, which is a value of the kind of the field,
and the objects in its members are of the types that the fields name. -/
inductive Object.OfType (env : Environment) : String → Object → Prop where
  /-- This is asked of every field in the schema of the type. -/
  | mk {type : String} {o : Object}
    (hmembers : ∀ schema, env.schemaOf type = .ok schema → ∀ entry ∈ schema.entries,
      ∃ m, o.get? entry.1.id = some m ∧ entry.2.Admits m)
    (hobjects : ∀ schema, env.schemaOf type = .ok schema → ∀ entry ∈ schema.entries,
      ∀ m inner, o.get? entry.1.id = some m → entry.2.objectType? = some inner →
        ∀ nested ∈ m.objects, OfType env inner nested) :
    OfType env type o

/-- An environment whose types are built from kinds that come with the format. -/
def Environment.BuiltIn (env : Environment) : Prop :=
  ∀ type schema, env.schemaOf type = .ok schema → ∀ entry ∈ schema.entries, entry.2.BuiltIn

/-- Declared types are built from the kinds that they declare. -/
lemma Environment.builtIn_ofTypes {types : List TypeDecl}
    (h : ∀ decl ∈ types, decl.Declares FieldKind.BuiltIn) (interfaces : InterfaceRegistry) :
    (ofTypes types interfaces).BuiltIn := by
  intro type schema hschema entry hentry
  exact ofTypes_kinds h hschema (entry.1.id, entry.2) (Schema.WellFormed.mem_kinds hentry)

namespace CodecError.Legitimate

variable {deep deep' : Prop} {e : CodecError}

/-- A failure stays legitimate where values nest deep for more reasons. -/
lemma mono (h : e.Legitimate deep) (hdeep : deep → deep') : e.Legitimate deep' := by
  cases h with
  | schema e => exact .schema e
  | missingRequiredField type field => exact .missingRequiredField type field
  | depthExceeded => exact .depthExceeded
  | tooDeep h => exact .tooDeep (hdeep h)
  | tooLong length => exact .tooLong length

/-- What is wrong with a payload is wrong with the object. -/
lemma of_field {e : FieldError} (h : e.Legitimate encodeDepth deep) :
    (CodecError.field e).Legitimate deep := by
  cases h with
  | tooDeep h => exact .tooDeep h
  | tooLong length => exact .tooLong length

/-- That generic values nest too deep is not fatal. -/
lemma of_fatal (h : e.Legitimate deep) (hfatal : e.isFatal = true) : e.Legitimate False := by
  cases h with
  | schema e => exact .schema e
  | missingRequiredField type field => exact .missingRequiredField type field
  | depthExceeded => exact .depthExceeded
  | tooDeep h => cases hfatal
  | tooLong length => cases hfatal

/-- A field for whose sake nothing else is given up is left out. -/
lemma omission (h : e.Legitimate deep) (hmild : e.isFatal = false) (type field : String)
    (id : UInt16) : (Diagnostic.fieldOmitted type field id e.message).Omission := by
  cases h with
  | tooDeep h => exact .tooDeep type field id
  | tooLong length => exact .tooLong type field id length
  | _ => cases hmild

end CodecError.Legitimate

namespace Encode

/-- Computations that append the same bytes wherever they start, or fail in the same way, and this
for a legitimate reason. What they tell is that fields were left out. -/
def FailsFor (deep : Prop) (write : Encode Unit) : Prop :=
  ∃ told result, Emits write told result ∧
    (∀ e, result = .error e → e.Legitimate deep) ∧ ∀ event ∈ told, event.Omission

namespace FailsFor

variable {deep deep' : Prop} {write write' : Encode Unit} {told : Report}

/-- What emits bytes and tells of omissions only does not fail. -/
lemma of_emits {bs : List UInt8} (h : Emits write told (.ok bs))
    (htold : ∀ event ∈ told, event.Omission) : FailsFor deep write :=
  ⟨told, .ok bs, h, (fun _ he => nomatch he), htold⟩

/-- What emits a legitimate failure and tells of omissions only fails for legitimate reasons. -/
lemma of_error {e : CodecError} (h : Emits write told (.error e)) (he : e.Legitimate deep)
    (htold : ∀ event ∈ told, event.Omission) : FailsFor deep write :=
  ⟨told, .error e, h, fun _ hsame => Except.error.inj hsame ▸ he, htold⟩

/-- Doing nothing does not fail. -/
lemma pure : FailsFor deep (Pure.pure ()) :=
  of_emits Emits.pure nofun

/-- Failing at once fails for the failure. -/
lemma throw {e : CodecError} (he : e.Legitimate deep) : FailsFor deep (MonadExcept.throw e) :=
  of_error (Emits.throw e) he nofun

/-- A step that fails for legitimate reasons does so where values nest deep for more of them. -/
lemma mono (h : FailsFor deep write) (hdeep : deep → deep') : FailsFor deep' write := by
  obtain ⟨told, result, hemits, hfails, htold⟩ := h
  exact ⟨told, result, hemits, fun e he => (hfails e he).mono hdeep, htold⟩

/-- Steps that fail for legitimate reasons do so one after another. -/
lemma bind (h : FailsFor deep write) (h' : FailsFor deep write') :
    FailsFor deep (write >>= fun _ => write') := by
  obtain ⟨told, result, hemits, hfails, htold⟩ := h
  cases result with
  | error e => exact of_error (hemits.bind_error _) (hfails e rfl) htold
  | ok bs =>
    obtain ⟨told', result', hemits', hfails', htold'⟩ := h'
    have hboth := hemits.bind hemits'
    have htold : ∀ event ∈ told ++ told', event.Omission :=
      List.forall_mem_append.mpr ⟨htold, htold'⟩
    cases result' with
    | error e => exact of_error hboth (hfails' e rfl) htold
    | ok bs' => exact of_emits hboth htold

/-- Items that fail for legitimate reasons do so one by one. -/
lemma each {α : Type} {write : α → Encode Unit} {items : List α}
    (h : ∀ a ∈ items, FailsFor deep (write a)) : FailsFor deep (Encode.each write items) := by
  induction items with
  | nil => exact pure
  | cons a rest ih =>
    rw [each_cons]
    exact bind (h a List.mem_cons_self) (ih fun b hb => h b (List.mem_cons_of_mem a hb))

/-- A step inside a payload. -/
lemma payload {step : Write FieldError Unit}
    (h : Write.FailsFor (FieldError.Legitimate encodeDepth deep) step) :
    FailsFor deep (payload step) := by
  obtain ⟨result, hemits, hfails⟩ := h
  have hpayload := Emits.onWriter CodecError.field hemits
  cases result with
  | error e => exact of_error hpayload (.of_field (hfails e rfl)) nofun
  | ok bs => exact of_emits hpayload nofun

/-- What needs the schema of a type may fail for want of one. -/
lemma schema {env : Environment} {type : String} {write : Schema → Encode Unit}
    (h : ∀ found, env.schemaOf type = .ok found → FailsFor deep (write found)) :
    FailsFor deep (schema env type >>= write) := by
  cases hfound : env.schemaOf type with
  | ok found =>
    unfold Encode.schema
    rw [hfound]
    exact h found hfound
  | error e => exact of_error (Emits.schema_missing hfound write) (.schema e) nofun

/-- Some bytes, and behind them what a body appends, with its size in front. -/
lemma extent {ε : Type} {rename : ε → CodecError} {f : BufferError → ε} {body : Encode Unit}
    {front : List UInt8}
    (hwrite : ∀ w events, write ⟨w, events⟩ =
      (body >>= fun _ => closeExtent rename f ⟨(w.append front).position⟩)
        ⟨(w.append front).append (LittleEndian.digits 4 0), events⟩)
    (hoverflow : ∀ length, (rename (f (.lengthOverflow length))).Legitimate deep)
    (h : FailsFor deep body) : FailsFor deep write := by
  obtain ⟨told, result, hemits, hfails, htold⟩ := h
  have hextent := hemits.extent hwrite
  cases result with
  | error e => exact of_error hextent (hfails e rfl) htold
  | ok bs =>
    simp only [Except.bind, sized] at hextent
    split at hextent
    · exact of_emits hextent htold
    · exact of_error hextent (hoverflow bs.length) htold

/-- A field whose size is known once its payload is written. -/
lemma delimited {id : UInt16} {body : Encode Unit} (h : FailsFor deep body) :
    FailsFor deep (delimited id body) :=
  extent (delimited_apply id body) .tooLong h

/-- A field that fails is left out, unless the failure is fatal. -/
lemma orOmit (type : String) (field : FieldDescriptor) (h : FailsFor deep write) :
    FailsFor False (orOmit type field write) := by
  obtain ⟨told, result, hemits, hfails, htold⟩ := h
  cases result with
  | ok bs => exact of_emits hemits.orOmit_written htold
  | error e =>
    have he := hfails e rfl
    cases hfatal : e.isFatal with
    | true => exact of_error (hemits.orOmit_fatal hfatal) (he.of_fatal hfatal) htold
    | false =>
      have homission := he.omission hfatal type field.name field.id
      exact of_emits (hemits.orOmit_omitted hfatal)
        (List.forall_mem_append.mpr ⟨htold, List.forall_mem_singleton.mpr homission⟩)

/-! ## Fields -/

section Fields

variable {env : Environment} {nested : ObjectWriter} {type : String} {entry : FieldDescriptor}

/-- A field without a value fails only if it must have one. -/
lemma absent : FailsFor deep (absent type entry) := by
  unfold Encode.absent
  split
  · exact throw (.missingRequiredField type entry.name)
  · split
    · exact pure
    · exact of_emits (nullField_emits entry.id) nofun

/-- A single value of a kind that comes with the format. -/
lemma single {kind : ValueKind} (hkind : kind.BuiltIn)
    (hlayout : kind.shape.resolve entry.options = .ok entry.semantic) (v : FieldValue) :
    FailsFor (Value.AnyDeeper encodeDepth v.values) (single type entry kind v) := by
  have hpayload : FailsFor (Value.AnyDeeper encodeDepth v.values)
      (Encode.payload (kind.write type encodeDepth v)) :=
    payload (Write.FailsFor.valueKind hkind hlayout type v)
  unfold Encode.single
  split
  case isTrue => exact absent
  case isFalse =>
    cases hwidth : entry.semantic.fixedSize with
    | some width => exact (of_emits (fixedHeader_emits hwidth) nofun).bind hpayload
    | none => exact delimited hpayload

/-- The payload of a collection: a count, and the items. -/
lemma counted {α : Type} {items : List α} {write : α → Encode Unit}
    (h : ∀ a ∈ items, FailsFor deep (write a)) :
    FailsFor deep (Encode.payload (liftM (Write.length items.length)) >>= fun _ =>
      Encode.each write items) :=
  (payload (Write.FailsFor.lift (Write.FailsFor.length items.length))).bind (each h)

section Objects

variable {o : Object} (h : FailsFor False (nested type o))
include h

/-- An object behind a word with its size. -/
lemma element : FailsFor deep (element nested type o) :=
  extent (element_apply nested type o) .tooLong (h.mono False.elim)

/-- An object as a generic value. -/
lemma tagged (name : String) : FailsFor deep (tagged nested type name o) := by
  have hfront : Write.FailsFor (FieldError.Legitimate encodeDepth deep)
      (Write.i32 ValueTag.parcelable.code >>= fun _ =>
        liftM (Write.string16 name) : Write FieldError Unit) :=
    (Write.FailsFor.raw _).bind (Write.FailsFor.lift (Write.FailsFor.string16 name))
  exact (payload hfront).bind (h.mono False.elim)

end Objects

/-- The payload of a list of objects. -/
lemma objectList {layout : Semantic} {items : List Object}
    (h : ∀ o ∈ items, FailsFor False (nested type o)) :
    FailsFor deep (objectList env nested layout type items) := by
  unfold Encode.objectList
  refine (payload (Write.FailsFor.lift (Write.FailsFor.length items.length))).bind ?_
  split
  · exact schema fun found _ => each fun o ho => (h o ho).tagged found.name
  · exact each fun o ho => (h o ho).element

/-- A map to objects. -/
lemma objectMap {key : ElementKind} (hkey : key.Own) {entries : List (Value × Object)}
    (h : ∀ o ∈ entries.map Prod.snd, FailsFor False (nested type o)) :
    FailsFor (Value.AnyDeeper encodeDepth (entries.map Prod.fst))
      (objectMap env nested entry key type entries) := by
  refine schema fun found _ => delimited (counted fun pair hpair => ?_)
  rw [hkey.toValue]
  exact (payload (Write.FailsFor.value (List.mem_map_of_mem hpair))).bind
    ((h pair.2 (List.mem_map_of_mem hpair)).tagged found.name)

/-- Every value of a kind meets a writer for it, in the layout that the kind has.

**Proof sketch.** One case for every kind of field. The member is a value of the kind, so it is
not refused. Elements without tags are the only values for which the layout matters. -/
theorem field {kind : FieldKind} (hkind : kind.BuiltIn)
    (hlayout : kind.shape.resolve entry.options = .ok entry.semantic) {m : Member}
    (hadmits : kind.Admits m) (hnested : ∀ inner, kind.objectType? = some inner →
      ∀ o ∈ m.objects, FailsFor False (nested inner o)) :
    FailsFor m.TooDeep (field env nested type entry kind m) := by
  cases kind with
  | value kind optional =>
    cases m with
    | value v =>
      cases v with
      | some v => exact single hkind hlayout v
      | none => exact absent
    | _ => simp [FieldKind.Admits] at hadmits
  | list element =>
    cases m with
    | list items => exact delimited (payload (Write.FailsFor.list hkind hlayout hadmits))
    | _ => exact hadmits.elim
  | map k v =>
    cases m with
    | map entries => exact delimited (payload (Write.FailsFor.map hkind.1 hkind.2 entries))
    | _ => exact hadmits.elim
  | object inner =>
    cases m with
    | object o =>
      cases o with
      | some o =>
        have ho : FailsFor False (nested inner o) := hnested inner rfl o List.mem_cons_self
        exact delimited (ho.mono False.elim)
      | none => exact absent
    | _ => exact hadmits.elim
  | objectArray inner =>
    cases m with
    | objectArray items =>
      refine delimited (counted fun item hitem => ?_)
      cases item with
      | some o => exact (hnested inner rfl o (List.mem_filterMap.mpr ⟨some o, hitem, rfl⟩)).element
      | none => exact payload (Write.FailsFor.raw _)
    | _ => exact hadmits.elim
  | objectList inner =>
    cases m with
    | objectList items => exact delimited (objectList (hnested inner rfl))
    | _ => exact hadmits.elim
  | objectMap k inner =>
    cases m with
    | objectMap entries => exact objectMap hkind (hnested inner rfl)
    | _ => exact hadmits.elim
  | interface proxy =>
    cases m with
    | interface handle =>
      cases handle with
      | some handle => exact delimited (payload (Write.FailsFor.binder handle))
      | none => exact absent
    | _ => exact hadmits.elim

end Fields

/-! ## Objects -/

section Objects

variable {env : Environment} (hcompiled : env.Compiled) (hbuiltIn : env.BuiltIn)
  {nested : ObjectWriter}
  (hnested : ∀ inner o, o.OfType env inner → FailsFor False (nested inner o))
  {type : String} {schema : Schema} (hschema : env.schemaOf type = .ok schema) {o : Object}
  (ho : o.OfType env type)
include hcompiled hbuiltIn hnested hschema ho

/-- A field of an object has a member, and fails only for what is wrong with it. -/
lemma member {entry : FieldDescriptor × FieldKind} (hentry : entry ∈ schema.entries) :
    ∃ m, o.get? entry.1.id = some m ∧
      FailsFor m.TooDeep (member env nested schema.name o entry) := by
  cases ho with
  | mk hmembers hobjects =>
    obtain ⟨m, hm, hadmits⟩ := hmembers schema hschema entry hentry
    refine ⟨m, hm, ?_⟩
    unfold Encode.member
    rw [hm]
    refine field (hbuiltIn type schema hschema entry hentry)
      ((hcompiled type schema hschema).1.resolve_eq hentry) hadmits fun inner hinner n hn => ?_
    exact hnested inner n (hobjects schema hschema entry hentry m inner hm hinner n hn)

/-- What goes wrong inside the fields of an object stays there. The frame may be too long. -/
lemma objectFrame : FailsFor False (objectFrame env nested schema o) := by
  refine extent (objectFrame_apply env nested schema o) .tooLong (each fun entry hentry => ?_)
  obtain ⟨m, -, hmember⟩ := member hcompiled hbuiltIn hnested hschema ho hentry
  exact hmember.orOmit schema.name entry.1

end Objects

end FailsFor

end Encode

open Encode

/-- An object is written, or it fails for a legitimate reason, whatever levels of nesting are left.

**Proof sketch.** Induction on the levels. The objects in the fields are written one level down. -/
theorem encodeObject_failsFor {env : Environment} (hcompiled : env.Compiled)
    (hbuiltIn : env.BuiltIn) (levels : Nat) {type : String} {o : Object} (ho : o.OfType env type) :
    FailsFor False (encodeObject env levels type o) := by
  induction levels generalizing type o with
  | zero => exact .schema fun _ _ => .throw .depthExceeded
  | succ levels ih =>
    exact .schema fun schema hschema =>
      .objectFrame hcompiled hbuiltIn (fun inner o ho => ih ho) hschema ho

/-- Objects of types that are built from the kinds that come with the format can be written. A
report holds nothing but fields that were left out because a generic value nests too deep or
because a length does not fit its word. Writing fails for a missing schema, for a member without
the value that it must have, for objects that nest too deep, or for a length. At any level of
nesting, a field fails for no other reasons either, and because of its generic values only if one
of them does nest too deep. -/
theorem encode_legitimate {types : List TypeDecl} {interfaces : InterfaceRegistry}
    (htypes : ∀ decl ∈ types, decl.Declares FieldKind.BuiltIn) {type : String} {o : Object}
    (ho : o.OfType (.ofTypes types interfaces) type) :
    (∀ w w' report, encode (.ofTypes types interfaces) type o w = (.ok report, w') →
      ∀ event ∈ report, event.Omission) ∧
    (∀ w w' e, encode (.ofTypes types interfaces) type o w = (.error e, w') →
      e.Legitimate False) ∧
    ∀ levels schema, (Environment.ofTypes types interfaces).schemaOf type = .ok schema →
      ∀ entry ∈ schema.entries, ∃ m, o.get? entry.1.id = some m ∧ ∀ s s' e,
        member (.ofTypes types interfaces) (encodeObject (.ofTypes types interfaces) levels)
          schema.name o entry s = .error e s' → e.Legitimate m.TooDeep := by
  have hcompiled := Environment.compiled_ofTypes types interfaces
  have hbuiltIn := Environment.builtIn_ofTypes htypes interfaces
  obtain ⟨told, result, hemits, hfails, htold⟩ :=
    encodeObject_failsFor hcompiled hbuiltIn encodeDepth ho
  refine ⟨fun w w' report h => ?_, fun w w' e h => ?_, fun levels schema hschema entry hentry => ?_⟩
  · rw [encode_emits hemits w] at h
    cases result with
    | ok bs =>
      cases h
      exact htold
    | error e => cases h
  · rw [encode_emits hemits w] at h
    cases result with
    | ok bs => cases h
    | error e =>
      cases h
      exact hfails e rfl
  · obtain ⟨m, hm, told, result, hemits, hfails, -⟩ := FailsFor.member hcompiled hbuiltIn
      (fun inner o ho => encodeObject_failsFor hcompiled hbuiltIn levels ho) hschema ho hentry
    refine ⟨m, hm, fun s s' e h => ?_⟩
    cases result with
    | ok bs =>
      rw [hemits s.writer s.events] at h
      cases h
    | error e' =>
      obtain ⟨bs, hrun⟩ := hemits s.writer s.events
      rw [hrun] at h
      cases h
      exact hfails _ rfl

namespace Sample

/-- Lists in lists, as deep as asked for. -/
def tower : Nat → Value
  | 0 => .null
  | n + 1 => .list [tower n]

/-- The types of the object below. -/
def mixed : List TypeDecl :=
  [fresh "Mixed" none
    [.field 1 "inner" (.object "Point") { nullable := true },
    .field 2 "flags" (.list .bool) { directList := true },
    .field 3 "any" (.list .value) {},
    .field 4 "last" (plain .int) { versionGate := some 1 }],
  point ""]

/-- The entries of the schema of the object below. -/
def mixedEntries : List (FieldDescriptor × FieldKind) :=
  [(⟨1, "inner", .object, .object "Point", some "Point", { nullable := true }⟩, .object "Point"),
    (⟨2, "flags", .boolList, .list .bool, none, { directList := true }⟩, .list .bool),
    (⟨3, "any", .list, .list .value, none, {}⟩, .list .value),
    (⟨4, "last", .int, .int, none, { versionGate := some 1 }⟩, .value (.plain .int) false)]

/-- An object with lists in lists one level too deep. -/
def mixedObject : Object :=
  ⟨[(1, .object (some origin)), (2, .list [.bool true]), (3, .list [tower 33]),
    (4, .value (some (.int 3)))]⟩

/-- What is told of the object. -/
def mixedReport : Report :=
  [.fieldOmitted "Mixed" "any" 3 "field error: nesting depth limit exceeded: 33 > 32"]

/-- The bytes of the object. -/
def mixedFrame : Array UInt8 :=
  #[0x45, 0x4F, 0xFF, 0xFF, 56, 0, 0, 0,
    1, 0, 0xFF, 0xFF, 24, 0, 0, 0,
    0x45, 0x4F, 0xFF, 0xFF, 16, 0, 0, 0, 1, 0, 4, 0, 0, 0, 0, 0, 2, 0, 4, 0, 0, 0, 0, 0,
    2, 0, 0xFF, 0xFF, 8, 0, 0, 0, 1, 0, 0, 0, 1, 0, 0, 0,
    4, 0, 4, 0, 3, 0, 0, 0]

/-- The kinds of the types are built in. -/
lemma mixed_builtIn : ∀ decl ∈ mixed, decl.Declares FieldKind.BuiltIn := by
  have hkind : (ValueKind.plain .int).BuiltIn := .plain .int
  have hpoint : (point "").Declares FieldKind.BuiltIn :=
    And.intro hkind (And.intro hkind trivial)
  refine List.forall_mem_cons.mpr ⟨?_, List.forall_mem_singleton.mpr hpoint⟩
  exact And.intro trivial (And.intro trivial (And.intro trivial (And.intro hkind trivial)))

/-- The point is an object of its type. -/
lemma origin_ofType : origin.OfType (.ofTypes mixed .empty) "Point" := by
  have hentries : ∀ schema, (Environment.ofTypes mixed .empty).schemaOf "Point" = .ok schema →
      schema.entries = [(⟨1, "x", .int, .int, none, {}⟩, .value (.plain .int) false),
        (⟨2, "y", .int, .int, none, {}⟩, .value (.plain .int) false)] := by
    intro schema hschema
    cases hschema
    rfl
  refine .mk (fun schema hschema entry hentry => ?_) fun schema hschema entry hentry => ?_
  all_goals
    rw [hentries schema hschema] at hentry
    simp only [List.mem_cons, List.not_mem_nil, or_false] at hentry
    rcases hentry with rfl | rfl
  · exact ⟨_, rfl, fun v hv => by cases hv; rfl⟩
  · exact ⟨_, rfl, fun v hv => by cases hv; rfl⟩
  all_goals
    intro m inner _ hinner
    cases hinner

/-- The mixed object is an object of its type. -/
lemma mixed_ofType : mixedObject.OfType (.ofTypes mixed .empty) "Mixed" := by
  have hentries : ∀ schema, (Environment.ofTypes mixed .empty).schemaOf "Mixed" = .ok schema →
      schema.entries = mixedEntries := by
    intro schema hschema
    cases hschema
    rfl
  refine .mk (fun schema hschema entry hentry => ?_) fun schema hschema entry hentry => ?_
  all_goals
    rw [hentries schema hschema] at hentry
    simp only [mixedEntries, List.mem_cons, List.not_mem_nil, or_false] at hentry
    rcases hentry with rfl | rfl | rfl | rfl
  · exact ⟨_, rfl, trivial⟩
  · refine ⟨_, rfl, fun v hv => ?_⟩
    cases List.mem_singleton.mp hv
    rfl
  · exact ⟨_, rfl, fun v _ => rfl⟩
  · exact ⟨_, rfl, fun v hv => by cases hv; rfl⟩
  · intro m inner hm hinner nested hnested
    cases hm
    cases hinner
    rw [List.mem_singleton.mp hnested]
    exact origin_ofType
  all_goals
    intro m inner _ hinner
    cases hinner

end Sample

/-- One field of four is left out, and the reason is among those that there are. -/
theorem encode_legitimate_mixed :
    (∀ decl ∈ Sample.mixed, decl.Declares FieldKind.BuiltIn) ∧
    Sample.mixedObject.OfType (.ofTypes Sample.mixed .empty) "Mixed" ∧
    encode (.ofTypes Sample.mixed .empty) "Mixed" Sample.mixedObject .empty =
      (.ok Sample.mixedReport, ⟨Sample.mixedFrame⟩) ∧
    ∀ event ∈ Sample.mixedReport, event.Omission := by
  have hencode : encode (.ofTypes Sample.mixed .empty) "Mixed" Sample.mixedObject .empty =
      (.ok Sample.mixedReport, ⟨Sample.mixedFrame⟩) := by decide +kernel
  obtain ⟨hreport, -⟩ := encode_legitimate Sample.mixed_builtIn Sample.mixed_ofType
  exact ⟨Sample.mixed_builtIn, Sample.mixed_ofType, hencode, hreport .empty _ _ hencode⟩

end TaggedParcel
