import TaggedParcel.Proofs.Object.FieldShape
import TaggedParcel.Sample.Records

set_option relaxedAutoImplicit false
set_option autoImplicit false

/-!
# The shape of a frame

An object is written as one frame with its fields in ascending order, at whole words all of them.
Nothing is missing but the fields that could not be written, which are reported, and those of
fixed width that have no value. The same holds for the objects in the fields, however deep they
are. What is written depends on nothing that was written before, and if writing fails nothing is
left behind.

## Main definitions

* `Object.Suits` — objects with the members that their types ask for.
* `Environment.Compiled` — environments of compiled schemas.
* `Encode.Fate`, `Encode.Fields` — what becomes of one field, and of the fields of an object.
* `Encode.FrameOf`, `Encode.Frame` — the shape of a frame, and of the frames in it.

## Main results

* `Encode.Fields.present` — members that must have a value have one.
* `Encode.fate_form`, `Encode.objectFrame_form` — fields and frames are written in this shape.
* `encodeObject_form` — objects are, at every level.
* `encode_append` — writing appends what it writes to an empty writer, or nothing.
* `encode_frame` — what is written is the frame of the object.
-/

namespace TaggedParcel

/-- An object of a type: all members are there and belong into their fields, and the objects in
them are of the types that the fields name. -/
inductive Object.Suits (env : Environment) : String → Object → Prop where
  /-- This is asked of every field in the schema of the type. -/
  | mk {type : String} {o : Object}
    (hmembers : ∀ schema, env.schemaOf type = .ok schema → ∀ entry ∈ schema.entries,
      ∃ m, o.get? entry.1.id = some m ∧ entry.2.Suits m)
    (hobjects : ∀ schema, env.schemaOf type = .ok schema → ∀ entry ∈ schema.entries,
      ∀ m inner, o.get? entry.1.id = some m → entry.2.objectType? = some inner →
        ∀ nested ∈ m.objects, Object.Suits env inner nested) :
    Object.Suits env type o

/-- An environment whose schemas are as compiling gives them. -/
def Environment.Compiled (env : Environment) : Prop :=
  ∀ type schema, env.schemaOf type = .ok schema → schema.WellFormed ∧ schema.Ordered

/-- The schemas of declared types are as compiling gives them. -/
lemma Environment.compiled_ofTypes (types : List TypeDecl) (interfaces : InterfaceRegistry) :
    (ofTypes types interfaces).Compiled :=
  fun _ _ h => ⟨ofTypes_wellFormed h, ofTypes_ordered h⟩

/-- A way to describe the objects of a type at an offset by their bytes and by what they tell. -/
abbrev ObjectForm : Type :=
  String → Nat → Object → List UInt8 → Report → Prop

namespace Encode

/-- What becomes of a field of an object, at an offset: its id if there is a field at all, its
bytes, and what is told. -/
inductive Fate (env : Environment) (nested : ObjectWriter) (frame : ObjectForm) (type : String)
    (o : Object) (entry : FieldDescriptor × FieldKind) (start : Nat) :
    List UInt16 → List UInt8 → Report → Prop where
  /-- A field that cannot be written is left out, and that is told last. -/
  | omitted {inner : Report} {e : CodecError}
    (hfails : Emits (member env nested type o entry) inner (.error e)) (hmild : e.isFatal = false) :
    Fate env nested frame type o entry start [] []
      (inner ++ [.fieldOmitted type entry.1.name entry.1.id e.message])
  /-- Any other field is written in the form that is due. -/
  | written {m : Member} {ids : List UInt16} {bs : List UInt8} {told : Report}
    (hmember : o.get? entry.1.id = some m)
    (hwritten : Written (fun start o bs told => ∃ inner, entry.2.objectType? = some inner ∧
      frame inner start o bs told) entry.1 m start ids bs told) :
    Fate env nested frame type o entry start ids bs told

/-- The fields of an object one after another, each at a whole word. -/
inductive Fields (env : Environment) (nested : ObjectWriter) (frame : ObjectForm) (type : String)
    (o : Object) : List (FieldDescriptor × FieldKind) → Nat →
    List UInt16 → List UInt8 → Report → Prop where
  /-- There are no more fields. -/
  | nil {start : Nat} : Fields env nested frame type o [] start [] [] []
  /-- Behind a field come the others. -/
  | cons {entry : FieldDescriptor × FieldKind} {rest : List (FieldDescriptor × FieldKind)}
    {start : Nat} {ids ids' : List UInt16} {bs bs' : List UInt8} {told told' : Report}
    (hstart : 4 ∣ start) (hfate : Fate env nested frame type o entry start ids bs told)
    (hrest : Fields env nested frame type o rest (start + bs.length) ids' bs' told') :
    Fields env nested frame type o (entry :: rest) start (ids ++ ids') (bs ++ bs') (told ++ told')

/-- The frame of an object at an offset: the object word, the number of bytes behind it, and these
are the fields of the schema in ascending order. What must have a value has one. -/
inductive FrameOf (env : Environment) (nested : ObjectWriter) (frame : ObjectForm) (type : String)
    (start : Nat) (o : Object) : List UInt8 → Report → Prop where
  /-- The ids are those of the fields that are there. -/
  | mk {schema : Schema} {ids : List UInt16} {body : List UInt8} {told : Report}
    (hschema : env.schemaOf type = .ok schema) (hfits : body.length < UInt32.size)
    (hregistered : schema.entries.map Prod.fst = schema.descriptor.fields)
    (hfields : Fields env nested frame schema.name o schema.entries (start + 8) ids body told)
    (hascending : ids.Pairwise (· < ·))
    (hrequired : ∀ entry ∈ schema.entries, entry.1.options.nullable = false →
      ∀ m, o.get? entry.1.id = some m → ¬ m.Absent)
    (hstart : 4 ∣ start) (hstop : 4 ∣ start + 8 + body.length) :
    FrameOf env nested frame type start o
      (LittleEndian.digits 4 (0xFFFF * 0x10000 + objectMagic.toNat) ++
        (LittleEndian.digits 4 body.length ++ body)) told

/-- The frame of an object in which objects nest so deep at most. -/
def Frame (env : Environment) : (levels : Nat) → ObjectForm
  | 0 => fun _ _ _ _ _ => False
  | levels + 1 => FrameOf env (encodeObject env levels) (Frame env levels)

variable {env : Environment} {nested : ObjectWriter} {frame : ObjectForm} {type : String}
  {o : Object} {entry : FieldDescriptor × FieldKind}
  {entries : List (FieldDescriptor × FieldKind)} {start : Nat} {ids : List UInt16}
  {bs : List UInt8} {told : Report}

/-! ## Which fields there are -/

/-- Without a value, every kind of field is written in the same way. -/
lemma field_absent {field : FieldDescriptor} {kind : FieldKind} {m : Member} (hsuits : kind.Suits m)
    (habsent : m.Absent) : Encode.field env nested type field kind m = absent type field := by
  cases m with
  | value v =>
    cases v with
    | some v => exact habsent.elim
    | none =>
      cases kind with
      | value => rfl
      | _ => simp [FieldKind.Suits] at hsuits
  | object o =>
    cases o with
    | some o => exact habsent.elim
    | none =>
      cases kind with
      | object => rfl
      | _ => simp [FieldKind.Suits] at hsuits
  | interface handle =>
    cases handle with
    | some handle => exact habsent.elim
    | none =>
      cases kind with
      | interface => rfl
      | _ => simp [FieldKind.Suits] at hsuits
  | _ => exact habsent.elim

namespace Fate

/-- A member that must have a value has one: if it had none, the object would not be written. -/
lemma present {m : Member} (h : Fate env nested frame type o entry start ids bs told)
    (hrequired : entry.1.options.nullable = false) (hmember : o.get? entry.1.id = some m)
    (hsuits : entry.2.Suits m) : ¬ m.Absent := by
  intro habsent
  cases h with
  | omitted hfails hmild =>
    have hthrow : member env nested type o entry =
        throw (.missingRequiredField type entry.1.name) := by
      unfold member
      rw [hmember]
      dsimp only
      rw [field_absent hsuits habsent, absent, hrequired]
      rfl
    rw [hthrow] at hfails
    rw [hfails.error_unique (Emits.throw _)] at hmild
    cases hmild
  | @written m' ids bs told hmember' hwritten =>
    have hsame : m = m' := Option.some.inj (hmember.symm.trans hmember')
    subst hsame
    cases hwritten with
    | skipped _ hnullable _ | null _ hnullable _ =>
      rw [hrequired] at hnullable
      cases hnullable
    | packed hpresent | escaped hpresent => exact hpresent habsent

/-- There is at most one field under an id. -/
lemma ids_sublist (h : Fate env nested frame type o entry start ids bs told) :
    ids.Sublist [entry.1.id] := by
  cases h with
  | omitted => exact List.nil_sublist _
  | written hmember hwritten =>
    cases hwritten with
    | skipped => exact List.nil_sublist _
    | null | packed | escaped => exact .refl _

end Fate

namespace Fields

/-- Where members belong into their fields, those that must have a value have one. -/
lemma present (h : Fields env nested frame type o entries start ids bs told)
    (hsuits : ∀ entry ∈ entries, ∃ m, o.get? entry.1.id = some m ∧ entry.2.Suits m) :
    ∀ entry ∈ entries, entry.1.options.nullable = false →
      ∀ m, o.get? entry.1.id = some m → ¬ m.Absent := by
  induction h with
  | nil => simp
  | cons hstart hfate hrest ih =>
    rw [List.forall_mem_cons] at hsuits ⊢
    obtain ⟨⟨m, hm, hbelongs⟩, hsuits⟩ := hsuits
    refine ⟨fun hrequired m' hm' => ?_, ih hsuits⟩
    cases hm.symm.trans hm'
    exact hfate.present hrequired hm hbelongs

/-- The fields that are there are registered, in the same order. -/
lemma ids_sublist (h : Fields env nested frame type o entries start ids bs told) :
    ids.Sublist (entries.map fun entry => entry.1.id) := by
  induction h with
  | nil => exact .refl _
  | cons hstart hfate hrest ih =>
    rw [List.map_cons, ← List.singleton_append]
    exact hfate.ids_sublist.append ih

/-- Later fields have greater ids. -/
lemma ids_ascending (h : Fields env nested frame type o entries start ids bs told)
    (hentries : entries.Pairwise fun a b => a.1.id < b.1.id) : ids.Pairwise (· < ·) :=
  (List.pairwise_map.mpr hentries).sublist h.ids_sublist

end Fields

/-! ## What is written -/

section Fate

variable {due : Prop} {good : String → Object → Prop}
  (hnested : ∀ inner o,
    Assembles (fun start o bs told => good inner o → frame inner start o bs told) 4
      (nested inner o) [o])
  (hlayout : due → entry.2.shape.resolve entry.1.options = .ok entry.1.semantic)
  (hsuits : due → ∃ m, o.get? entry.1.id = some m ∧ entry.2.Suits m)
include hnested hlayout hsuits

/-- The member of an object is written in the form that is due. An object in it is described
together with the type that the field names for it. -/
lemma member_form : Steady (member env nested type o entry) fun bs told => 4 ∣ bs.length ∧
    (due → ∀ m, o.get? entry.1.id = some m → ∀ start, 4 ∣ start →
      ∃ ids, Written (fun start o bs told => ∃ inner, entry.2.objectType? = some inner ∧
        (good inner o → frame inner start o bs told)) entry.1 m start ids bs told) := by
  unfold member
  cases hmember : o.get? entry.1.id with
  | none => exact .throw _
  | some m =>
    have hwrites : WritesForm (fun start o bs told => ∃ inner, entry.2.objectType? = some inner ∧
        (good inner o → frame inner start o bs told)) entry.1 entry.2 m
          (Encode.field env nested type entry.1 entry.2 m) := by
      apply field_form
      intro inner hinner o
      apply (hnested inner o).mono
      intro bs told ⟨hwords, hleast, hpieces⟩
      refine ⟨hwords, hleast, fun start hstart => (hpieces start hstart).mono ?_⟩
      intro n _ start bs told hframe
      exact ⟨inner, hinner, hframe⟩
    apply hwrites.mono
    intro bs told ⟨hwords, hwritten⟩
    refine ⟨hwords, fun hdue m' hm' => ?_⟩
    cases hm'
    obtain ⟨m', hm', hbelongs⟩ := hsuits hdue
    cases hmember.symm.trans hm'
    exact hwritten (hlayout hdue) hbelongs

/-- A field is written in the form that is due, or left out.

**Proof sketch.** What the form of the member says about the objects in it is combined with what
is known of them. A failure that is not fatal leaves nothing but the report of it. -/
lemma fate_form (hgood : due → ∀ m inner, o.get? entry.1.id = some m →
      entry.2.objectType? = some inner → ∀ n ∈ m.objects, good inner n) :
    Steady (orOmit type entry.1 (member env nested type o entry)) fun bs told => 4 ∣ bs.length ∧
      (due → ∀ start, 4 ∣ start → ∃ ids, Fate env nested frame type o entry start ids bs told) := by
  apply ((member_form hnested hlayout hsuits).orOmit type entry.1).mono
  intro bs told hfield
  rcases hfield with ⟨hwords, hwritten⟩ | ⟨inner, e, hfails, hmild, rfl, rfl⟩
  · refine ⟨hwords, fun hdue start hstart => ?_⟩
    obtain ⟨m, hm, -⟩ := hsuits hdue
    obtain ⟨ids, hwritten⟩ := hwritten hdue m hm start hstart
    refine ⟨ids, .written hm (hwritten.mono ?_)⟩
    rintro n hn start bs told ⟨inner, hinner, hframe⟩
    exact ⟨inner, hinner, hframe (hgood hdue m inner hm hinner n hn)⟩
  · exact ⟨Nat.dvd_zero 4, fun _ _ _ => ⟨[], .omitted hfails hmild⟩⟩

end Fate

/-- Fields are written one after another if each of them is. -/
lemma fields_form {due : Prop} (h : ∀ entry ∈ entries,
    Steady (orOmit type entry.1 (member env nested type o entry)) fun bs told => 4 ∣ bs.length ∧
      (due → ∀ start, 4 ∣ start → ∃ ids, Fate env nested frame type o entry start ids bs told)) :
    Steady (each (fun entry => orOmit type entry.1 (member env nested type o entry)) entries)
      fun bs told => 4 ∣ bs.length ∧ (due → ∀ start, 4 ∣ start →
        ∃ ids, Fields env nested frame type o entries start ids bs told) := by
  induction entries with
  | nil => exact .of_emits Emits.pure ⟨Nat.dvd_zero 4, fun _ _ _ => ⟨[], .nil⟩⟩
  | cons entry rest ih =>
    have hrest := ih fun entry hentry => h entry (List.mem_cons_of_mem _ hentry)
    rw [each_cons]
    apply ((h entry List.mem_cons_self).bind hrest).mono
    rintro _ _ ⟨bs, bs', told, told', rfl, rfl, ⟨hwords, hfate⟩, hwords', hfields⟩
    rw [List.length_append]
    refine ⟨Nat.dvd_add hwords hwords', fun hdue start hstart => ?_⟩
    obtain ⟨ids, hfate⟩ := hfate hdue start hstart
    obtain ⟨ids', hfields⟩ := hfields hdue (start + bs.length) (Nat.dvd_add hstart hwords)
    exact ⟨ids ++ ids', .cons hstart hfate hfields⟩

/-- The fields of an object stand behind a reserved word. -/
lemma objectFrame_apply (env : Environment) (nested : ObjectWriter) (schema : Schema) (o : Object)
    (w : Writer) (events : List Diagnostic) :
    objectFrame env nested schema o ⟨w, events⟩ =
      (each (fun entry => orOmit schema.name entry.1 (member env nested schema.name o entry))
          schema.entries >>= fun _ =>
        closeExtent CodecError.ofFrame FrameError.buffer
          ⟨(w.append (LittleEndian.digits 4 objectWord.toNat)).position⟩)
        ⟨(w.append (LittleEndian.digits 4 objectWord.toNat)).append
          (LittleEndian.digits 4 0), events⟩ :=
  rfl

/-- An object is a frame around what its fields append. -/
lemma objectFrame_steady {schema : Schema} {form : List UInt8 → Report → Prop}
    (h : Steady (each (fun entry => orOmit schema.name entry.1
      (member env nested schema.name o entry)) schema.entries) form) :
    Steady (objectFrame env nested schema o) fun bs told => ∃ body,
      bs = LittleEndian.digits 4 (0xFFFF * 0x10000 + objectMagic.toNat) ++
        (LittleEndian.digits 4 body.length ++ body) ∧
      body.length < UInt32.size ∧ form body told := by
  rw [← objectWord_toNat]
  exact Steady.extent (objectFrame_apply env nested schema o) h

/-- An object is written as a frame if the objects in it are. -/
lemma objectFrame_form {schema : Schema} (hschema : env.schemaOf type = .ok schema)
    (hnested : ∀ inner o, Assembles (fun start o bs told => env.Compiled ∧ o.Suits env inner →
      frame inner start o bs told) 4 (nested inner o) [o]) :
    Steady (objectFrame env nested schema o) fun bs told => 4 ∣ bs.length ∧ 4 ≤ bs.length ∧
      (env.Compiled ∧ o.Suits env type → ∀ start, 4 ∣ start →
        FrameOf env nested frame type start o bs told) := by
  have hfates : ∀ entry ∈ schema.entries,
      Steady (orOmit schema.name entry.1 (member env nested schema.name o entry)) fun bs told =>
        4 ∣ bs.length ∧ (env.Compiled ∧ o.Suits env type → ∀ start, 4 ∣ start →
          ∃ ids, Fate env nested frame schema.name o entry start ids bs told) := by
    intro entry hentry
    apply fate_form hnested
    · intro ⟨hcompiled, _⟩
      exact (hcompiled type schema hschema).1.resolve_eq hentry
    · intro ⟨_, hmembers, _⟩
      exact hmembers schema hschema entry hentry
    · intro ⟨hcompiled, _, hobjects⟩ m inner hm hinner n hn
      exact ⟨hcompiled, hobjects schema hschema entry hentry m inner hm hinner n hn⟩
  apply (objectFrame_steady (fields_form hfates)).mono
  rintro _ told ⟨body, rfl, hfits, hwords, hfields⟩
  have hlength : (LittleEndian.digits 4 (0xFFFF * 0x10000 + objectMagic.toNat) ++
      (LittleEndian.digits 4 body.length ++ body)).length = 8 + body.length := by
    simp only [List.length_append, LittleEndian.length_digits]
    omega
  rw [hlength]
  refine ⟨by omega, by omega, fun hdue start hstart => ?_⟩
  obtain ⟨ids, hfields⟩ := hfields hdue (start + 8) (by omega)
  obtain ⟨hcompiled, hmembers, -⟩ := hdue
  have hordered := (hcompiled type schema hschema).2
  exact .mk hschema hfits hordered.entries_fields hfields
    (hfields.ids_ascending hordered.entries_ascending) (hfields.present (hmembers schema hschema))
    hstart (by omega)

end Encode

open Encode

/-- At every level, an object is written as its frame.

**Proof sketch.** Induction on the levels that are left. Without any, writing fails. Otherwise the
objects in the fields are written one level down, where the frame of an object is a payload with
this object in it. -/
theorem encodeObject_form (env : Environment) (levels : Nat) (type : String) (o : Object) :
    Steady (encodeObject env levels type o) fun bs told => 4 ∣ bs.length ∧ 4 ≤ bs.length ∧
      (env.Compiled ∧ o.Suits env type → ∀ start, 4 ∣ start →
        Frame env levels type start o bs told) := by
  induction levels generalizing type o with
  | zero => exact Steady.schema fun _ _ => .throw _
  | succ levels ih =>
    apply Steady.schema
    intro schema hschema
    apply objectFrame_form hschema
    intro inner o
    apply (ih inner o).mono
    intro bs told ⟨hwords, hleast, hframe⟩
    refine ⟨hwords, hleast, fun start hstart => ?_⟩
    have hpieces : Pieces (fun start o bs told => env.Compiled ∧ o.Suits env inner →
        Frame env levels inner start o bs told) start [o] (bs ++ []) (told ++ []) :=
      .object (fun hdue => hframe hdue start hstart) .nil
    rw [List.append_nil, List.append_nil] at hpieces
    exact hpieces

/-- What writing an object does to a writer, whatever the writer holds. -/
lemma encode_emits {env : Environment} {type : String} {o : Object} {told : Report}
    {result : Except CodecError (List UInt8)}
    (h : Emits (encodeObject env encodeDepth type o) told result) (w : Writer) :
    encode env type o w =
      match result with
      | .ok bs => (.ok told, w.append bs)
      | .error e => (.error e, w) := by
  unfold encode
  dsimp only
  cases result with
  | ok bs =>
    rw [h w []]
    simp
  | error e =>
    obtain ⟨bs, hrun⟩ := h w []
    rw [hrun]
    dsimp only
    rw [Writer.truncate_append]

/-- Writing an object does not depend on what the writer holds. The result is that of an empty
writer, and what an empty writer would hold is appended. After a failure the writer is as it was. -/
theorem encode_append (env : Environment) (type : String) (o : Object) (w : Writer) :
    encode env type o w =
      match encode env type o .empty with
      | (.ok report, alone) => (.ok report, w.append alone.bytes.toList)
      | (.error e, _) => (.error e, w) := by
  obtain ⟨told, result, hemits, -⟩ := encodeObject_form env encodeDepth type o
  rw [encode_emits hemits w, encode_emits hemits .empty]
  cases result with
  | ok bs => simp [Writer.append, Writer.empty]
  | error e => rfl

/-- What is written is the frame of the object, wherever it starts at a whole word. -/
theorem encode_frame {types : List TypeDecl} {interfaces : InterfaceRegistry} {type : String}
    {o : Object} {w w' : Writer} {report : Report}
    (hsuits : o.Suits (.ofTypes types interfaces) type)
    (h : encode (.ofTypes types interfaces) type o w = (.ok report, w')) :
    ∃ bs, w' = w.append bs ∧ ∀ start, 4 ∣ start →
      Frame (.ofTypes types interfaces) encodeDepth type start o bs report := by
  obtain ⟨told, result, hemits, hform⟩ :=
    encodeObject_form (.ofTypes types interfaces) encodeDepth type o
  rw [encode_emits hemits w] at h
  cases result with
  | ok bs =>
    cases h
    exact ⟨bs, rfl, (hform bs rfl).2.2 ⟨Environment.compiled_ofTypes types interfaces, hsuits⟩⟩
  | error e => cases h

namespace Sample

/-- The types of the object below. -/
def fates : List TypeDecl :=
  [fresh "Fates" none
    [.field 1 "inner" (.object "Point") { nullable := true },
    .field 2 "missing" (.object "Point") { nullable := true },
    .field 3 "gap" (optional .int) { nullable := true },
    .field 4 "odd" (.list (.refined odd)) { directList := true },
    .field 5 "last" (plain .int) {}],
  point ""]

/-- The entries of the schema of the object below. -/
def fatesEntries : List (FieldDescriptor × FieldKind) :=
  [(⟨1, "inner", .object, .object "Point", some "Point", { nullable := true }⟩, .object "Point"),
    (⟨2, "missing", .object, .object "Point", some "Point", { nullable := true }⟩,
      .object "Point"),
    (⟨3, "gap", .int, .int, none, { nullable := true }⟩, .value (.plain .int) true),
    (⟨4, "odd", .intList, .list .int, none, { directList := true }⟩, .list (.refined odd)),
    (⟨5, "last", .int, .int, none, {}⟩, .value (.plain .int) false)]

/-- A point. -/
def origin : Object :=
  ⟨[(1, .value (some (.int 0))), (2, .value (some (.int 0)))]⟩

/-- An object with a field of every fate: one holds a point, two have no value, one fails when it
is written, and one is an integer. -/
def fatesObject : Object :=
  ⟨[(1, .object (some origin)), (2, .object none), (3, .value none),
    (4, .list [.int (-1)]), (5, .value (some (.int 3)))]⟩

/-- What is told of the object. -/
def fatesReport : Report :=
  [.fieldOmitted "Fates" "odd" 4 "field error: expected int-list, found long"]

/-- The bytes of the object. -/
def fatesFrame : Array UInt8 :=
  #[0x45, 0x4F, 0xFF, 0xFF, 44, 0, 0, 0,
    1, 0, 0xFF, 0xFF, 24, 0, 0, 0,
    0x45, 0x4F, 0xFF, 0xFF, 16, 0, 0, 0, 1, 0, 4, 0, 0, 0, 0, 0, 2, 0, 4, 0, 0, 0, 0, 0,
    2, 0, 0, 0,
    5, 0, 4, 0, 3, 0, 0, 0]

/-- The point suits its type. -/
lemma origin_suits : origin.Suits (.ofTypes fates .empty) "Point" := by
  have hentries : ∀ schema, (Environment.ofTypes fates .empty).schemaOf "Point" = .ok schema →
      schema.entries = [(⟨1, "x", .int, .int, none, {}⟩, .value (.plain .int) false),
        (⟨2, "y", .int, .int, none, {}⟩, .value (.plain .int) false)] := by
    intro schema hschema
    cases hschema
    rfl
  refine .mk (fun schema hschema entry hentry => ?_) fun schema hschema entry hentry => ?_
  all_goals
    rw [hentries schema hschema] at hentry
    rcases List.mem_pair.mp hentry with rfl | rfl
  · exact ⟨_, rfl, fun v hv => by cases hv; rfl⟩
  · exact ⟨_, rfl, fun v hv => by cases hv; rfl⟩
  · intro m inner _ hinner
    cases hinner
  · intro m inner _ hinner
    cases hinner

/-- The object with a field of each fate suits its type. -/
lemma fates_suits : fatesObject.Suits (.ofTypes fates .empty) "Fates" := by
  have hentries : ∀ schema, (Environment.ofTypes fates .empty).schemaOf "Fates" = .ok schema →
      schema.entries = fatesEntries := by
    intro schema hschema
    cases hschema
    rfl
  refine .mk (fun schema hschema entry hentry => ?_) fun schema hschema entry hentry => ?_
  all_goals
    rw [hentries schema hschema] at hentry
    simp only [fatesEntries, List.mem_cons, List.not_mem_nil, or_false] at hentry
    rcases hentry with rfl | rfl | rfl | rfl | rfl
  · exact ⟨_, rfl, trivial⟩
  · exact ⟨_, rfl, trivial⟩
  · exact ⟨_, rfl, nofun⟩
  · exact ⟨_, rfl, trivial⟩
  · exact ⟨_, rfl, fun v hv => by cases hv; rfl⟩
  · intro m inner hm hinner nested hnested
    cases hm
    cases hinner
    rw [List.mem_singleton.mp hnested]
    exact origin_suits
  · intro m inner hm _ nested hnested
    cases hm
    cases hnested
  all_goals
    intro m inner _ hinner
    cases hinner

end Sample

/-- A field of every fate in one object, and the frame as which the object is written. -/
theorem encode_frame_fates :
    Sample.fatesObject.Suits (.ofTypes Sample.fates .empty) "Fates" ∧
    encode (.ofTypes Sample.fates .empty) "Fates" Sample.fatesObject .empty =
      (.ok Sample.fatesReport, ⟨Sample.fatesFrame⟩) ∧
    Frame (.ofTypes Sample.fates .empty) encodeDepth "Fates" 0 Sample.fatesObject
      Sample.fatesFrame.toList Sample.fatesReport := by
  have hencode : encode (.ofTypes Sample.fates .empty) "Fates" Sample.fatesObject .empty =
      (.ok Sample.fatesReport, ⟨Sample.fatesFrame⟩) := rfl
  obtain ⟨bs, hwriter, hframe⟩ := encode_frame Sample.fates_suits hencode
  have hbytes : Writer.empty.append Sample.fatesFrame.toList = Writer.empty.append bs := hwriter
  rw [Writer.append_inj hbytes]
  exact ⟨Sample.fates_suits, hencode, hframe 0 (Nat.dvd_zero 4)⟩

end TaggedParcel
