import TaggedParcel.Proofs.Object.Absence
import TaggedParcel.Proofs.Object.Crossings
import TaggedParcel.Proofs.Value.Encoding
import TaggedParcel.Sample.Collections

set_option relaxedAutoImplicit false
set_option autoImplicit false

/-!
# Nulls in place of collections

A collection can be null in two ways: its field has no payload, or the payload starts with a count
of minus one, and what follows is not looked at. Either way the member becomes the empty
collection, and an array that may be absent becomes absent. Nothing is reported, and what the
member was before does not matter.

## Main definitions

* `FieldKind.empty?` — what a null stands for in a field that holds a collection.
* `NullCollection` — payloads that stand for no collection.
* `Decode.Quiet` — computations that read an answer from some bytes and report nothing.

## Main results

* `Decode.Quiet.member_empty`, `Decode.Quiet.member_null` — the two ways to be null.
* `Decode.fieldEffect_null` — the effect of a field with a null for a collection.
* `decode_null_collection` — reading such a field, and objects with such fields.
-/

namespace TaggedParcel

/-- The empty array of a kind, if its values are arrays. -/
def PlainKind.emptyArray? : PlainKind → Option FieldValue
  | .byteArray => some (.byteArray #[])
  | .byteArrayArray => some (.byteArrayArray [])
  | .intArray => some (.intArray [])
  | .floatArray => some (.floatArray [])
  | .stringArray => some (.stringArray [])
  | .bool | .byte | .short | .int | .long | .float | .double | .string | .bundle | .binder => none

/-- What a null stands for in a field that holds a collection: the empty collection, or no array if
the array may be absent. -/
def FieldKind.empty? : FieldKind → Option Member
  | .value (.plain kind) false => kind.emptyArray?.map fun v => .value (some v)
  | .value (.plain kind) true => kind.emptyArray?.map fun _ => .value none
  | .list _ => some (.list [])
  | .map _ _ => some (.map [])
  | .objectArray _ => some (.objectArray [])
  | .objectList _ => some (.objectList [])
  | .objectMap _ _ => some (.objectMap [])
  | .value (.refined _) _ | .value (.uncarried _) _ | .object _ | .interface _ => none

/-- Payloads that stand for no collection: there are no bytes, or they start with the count minus
one. -/
def NullCollection (payload : List UInt8) : Prop :=
  payload = [] ∨ nullWord <+: payload

/-- Collections have no fixed size. -/
lemma FieldKind.fixedSize_of_empty {kind : FieldKind} {m : Member} (hempty : kind.empty? = some m)
    {options : FieldOptions} {layout : Semantic}
    (h : kind.shape.resolve options = .ok layout) : layout.fixedSize = none := by
  cases kind with
  | value k optional =>
    cases k with
    | plain kind => cases kind <;> cases optional <;> cases hempty <;> cases h <;> rfl
    | refined k => cases hempty
    | uncarried shape => cases hempty
  | _ => exact fixedSize_eq_none (fun _ _ hvalue => by cases hvalue) h

/-! ## The count minus one -/

namespace Read.Parses

/-- The count minus one is read as no count. -/
lemma noCount (limits : Limits) : Parses (Read.count limits) nullWord none :=
  (nullLength.mapError FieldError.buffer).after (pure none)

/-- A null is read as a missing array, whatever its items would be. -/
lemma noArray {α : Type} (limits : Limits) (item : Read FieldError α) :
    Parses (Read.arrayOf limits item) nullWord none :=
  (noCount limits).after (pure none)

/-- Behind the count minus one there is no array. -/
lemma noPlainArray {kind : PlainKind} {v : FieldValue} (h : kind.emptyArray? = some v)
    (limits : Limits) : Parses (kind.read limits) nullWord none := by
  cases kind <;> cases h
  · exact (nullArray.mapError FieldError.buffer).map fun bytes => bytes.map FieldValue.byteArray
  · exact (noArray limits _).map fun items => items.map FieldValue.byteArrayArray
  · exact (noArray limits _).map fun items => items.map FieldValue.intArray
  · exact (noArray limits _).map fun items => items.map FieldValue.floatArray
  · exact (noArray limits _).map fun items => items.map FieldValue.stringArray

end Read.Parses

/-! ## Members -/

/-- The bytes that are read of a null collection: none, if the header says that there are none, and
else the count. -/
def FieldHeader.nullBytes (header : FieldHeader) : List UInt8 :=
  if header.isNull then [] else nullWord

namespace Decode

variable {α β : Type}

/-- A computation that reads an answer from some bytes, whatever follows them, and reports
nothing. -/
def Quiet (m : Decode α) (bs : List UInt8) (a : α) : Prop :=
  ∀ r : Reader, r.Sound → bs <+: r.ahead → ∀ events,
    m ⟨r, events⟩ = .ok a ⟨r.advance bs.length, events⟩

namespace Quiet

/-- Answering at once is quiet and takes no bytes. -/
lemma pure (a : α) : Quiet (Pure.pure a : Decode α) [] a :=
  fun _ _ _ _ => rfl

/-- A payload that is read silently is quiet. -/
lemma payload {step : Read FieldError α} {bs : List UInt8} {a : α} (h : Read.Parses step bs a) :
    Quiet (payload step) bs a := by
  intro r hr hfront events
  simp only [Decode.payload, onReader, h r hr hfront]

/-- What follows takes no more bytes. -/
lemma after {m : Decode α} {next : α → Decode β} {bs : List UInt8} {a : α} {b : β}
    (h : Quiet m bs a) (hnext : Quiet (next a) [] b) : Quiet (m >>= next) bs b := by
  intro r hr hfront events
  rw [bind_apply, h r hr hfront events]
  exact hnext _ (hr.advance hfront.length_le) List.nil_prefix events

/-- An answer that is changed after it was read. -/
lemma map {m : Decode α} {bs : List UInt8} {a : α} (f : α → β) (h : Quiet m bs a) :
    Quiet (m >>= fun a => Pure.pure (f a)) bs (f a) :=
  h.after (pure (f a))

variable {env : Environment} {limits : Limits} {nested : ObjectReader} {type : String}
  {header : FieldHeader} {entry : FieldDescriptor} {kind : FieldKind} {m : Member}

/-- What is read unless the header says that there is nothing to be read. -/
lemma unlessNull {m : Decode α} {a : α} (h : Quiet m nullWord a) :
    Quiet (if header.isNull then Pure.pure a else m) header.nullBytes a := by
  unfold FieldHeader.nullBytes
  cases header.isNull with
  | true => exact pure a
  | false => exact h

/-- A null collection is quiet and empty. -/
lemma collection (item : Decode α) :
    Quiet (collection limits header item) header.nullBytes [] :=
  unlessNull ((payload (Read.Parses.noCount limits)).after (pure []))

/-- An array that is null is empty, or absent if it may be. -/
lemma single {kind : PlainKind} {v : FieldValue} (h : kind.emptyArray? = some v) (optional : Bool)
    (hfixed : entry.semantic.fixedSize = none) :
    Read.Parses (single type limits header entry (.plain kind) optional) header.nullBytes
      (if optional then none else some v) := by
  have hzero : kind.ofNull? = some v := by cases kind <;> exact h
  unfold Decode.single FieldHeader.nullBytes
  extract_lets ofNull
  have hnull : Read.Parses ofNull [] (if optional then none else some v) := by
    simp only [ofNull, ValueKind.ofNull?, hzero]
    cases optional <;> exact Read.Parses.pure _
  cases header.isNull with
  | true => exact hnull
  | false =>
    rw [hfixed]
    exact (Read.Parses.noPlainArray h limits).after hnull

/-- A field that should hold a collection reads a null as the empty collection. -/
theorem member (hempty : kind.empty? = some m) (hfixed : entry.semantic.fixedSize = none) :
    Quiet (member env limits nested type header entry kind) header.nullBytes m := by
  cases kind with
  | value k optional =>
    cases k with
    | plain kind =>
      cases hkind : kind.emptyArray? with
      | none => cases optional <;> simp [FieldKind.empty?, hkind] at hempty
      | some v =>
        have hm : m = .value (if optional then none else some v) := by
          cases optional <;> simpa [FieldKind.empty?, hkind, eq_comm] using hempty
        rw [hm]
        exact (payload (single hkind optional hfixed)).map Member.value
    | refined k => cases hempty
    | uncarried shape => cases hempty
  | list kind =>
    cases hempty
    have hlist : Read.Parses (Read.list kind entry.semantic limits) nullWord [] :=
      (Read.Parses.noArray limits _).after (Read.Parses.pure [])
    exact unlessNull ((payload hlist).map Member.list)
  | map k v =>
    cases hempty
    have hmap : Read.Parses (Read.map k v limits) nullWord [] :=
      (Read.Parses.noArray limits _).after (Read.Parses.pure [])
    exact unlessNull ((payload hmap).map Member.map)
  | objectArray inner =>
    cases hempty
    exact (collection _).map Member.objectArray
  | objectList inner =>
    cases hempty
    exact (collection _).map Member.objectList
  | objectMap k inner =>
    cases hempty
    exact (collection _).map fun entries =>
      Member.objectMap (Sorted.ofList Value.compareKeys entries)
  | object inner => cases hempty
  | interface proxy => cases hempty

end Quiet

/-- Nothing is told of the version gate of a collection. -/
lemma gateReport_of_empty (type : String) (entry : FieldDescriptor) {kind : FieldKind} {m : Member}
    (hempty : kind.empty? = some m) : gateReport type entry kind m = [] := by
  cases kind with
  | value k optional =>
    cases k with
    | plain kind => cases kind <;> cases optional <;> cases hempty <;> rfl
    | refined k => cases hempty
    | uncarried shape => cases hempty
  | _ => rfl

variable {env : Environment} {limits : Limits} {nested : ObjectReader} {schema : Schema}
  {entry : FieldDescriptor} {kind : FieldKind} {m : Member}

/-- A null in place of a collection brings the empty collection, and nothing is reported.

**Proof sketch.** If the payload has no bytes, the header says so and none are read. Else the
count minus one is read, and what is behind it stays unread. -/
theorem fieldEffect_null {bytes : Array UInt8} {header : FieldHeader}
    (hentry : schema.entry? header.id = some (entry, kind)) (hempty : kind.empty? = some m)
    (hfixed : entry.semantic.fixedSize = none) (hwindow : (header.window bytes).Sound)
    (hnull : NullCollection (header.payload bytes)) :
    fieldEffect env limits nested schema bytes header = .ok ⟨some m, [], []⟩ := by
  have hlength := FieldHeader.length_payload hwindow
  have hfront : header.nullBytes <+: (header.window bytes).ahead := by
    unfold FieldHeader.nullBytes
    rcases hnull with hnil | hcount
    · have hsize : header.isNull = true := beq_iff_eq.mpr (by rw [← hlength, hnil]; rfl)
      rw [hsize]
      exact List.nil_prefix
    · cases header.isNull with
      | true => exact List.nil_prefix
      | false => exact hcount
  have hmember : member env limits nested schema.name header entry kind
      ⟨header.window bytes, []⟩ =
        .ok m ⟨(header.window bytes).advance header.nullBytes.length, []⟩ :=
    Quiet.member hempty hfixed (header.window bytes) hwindow hfront []
  unfold fieldEffect
  rw [hentry]
  dsimp only
  rw [hmember]
  dsimp only
  rw [gateReport_of_empty schema.name entry hempty]
  rfl

/-- A field of a frame that holds a null in place of a collection replaces its member by the empty
collection, and reading goes on behind it. -/
theorem fieldInto_null (hblind : ∀ inner, Blind (nested inner))
    (hlocal : ∀ inner, Local (nested inner)) {r : Reader} (hr : r.Sound) {id : UInt16}
    {format : FieldFormat} {payload : List UInt8}
    (hentry : schema.entry? id = some (entry, kind)) (hempty : kind.empty? = some m)
    (hfixed : entry.semantic.fixedSize = none) (hadmits : format.Admits payload.length)
    (hnull : NullCollection payload)
    (hfront : format.header id payload.length ++ payload <+: r.ahead) (o : Object)
    (events : List Diagnostic) :
    fieldInto env limits nested schema r.limit o ⟨r, events⟩ =
      .ok (o.set id m) ⟨r.advance (format.width + payload.length), events⟩ := by
  have hlength := format.length_header id payload.length
  obtain ⟨header, hread, rfl, hsize, hstart⟩ :=
    Read.fieldHeader_of_format hr hadmits ((List.prefix_append _ _).trans hfront)
  rw [← hlength] at hstart
  obtain ⟨hstop, hend, hwindow, hpayload⟩ :=
    FieldHeader.window_of_prefix hr hstart hsize hfront
  have hwidth : format.width ≤ r.ahead.length := by
    have hle := hfront.length_le
    rw [List.length_append, hlength] at hle
    omega
  rw [hlength] at hstart
  have hinto := @fieldInto_cases env limits nested r schema hblind hlocal hr header _ hwidth hstart
    hread hstop o events
  rw [fieldEffect_null hentry hempty hfixed hwindow (by rwa [FieldHeader.payload, hpayload])]
    at hinto
  rw [hinto, hend, List.length_append, hlength]
  rfl

end Decode

/-- Of fields one behind the other, the last ones come first. -/
lemma FieldEffect.lastMember?_append (id : UInt16) (front back : List (FieldHeader × FieldEffect)) :
    lastMember? id (front ++ back) = (lastMember? id back).or (lastMember? id front) := by
  induction front with
  | nil => simp [lastMember?]
  | cons field rest ih => rw [List.cons_append, lastMember?, ih, lastMember?, Option.or_assoc]

/-- A null in place of a collection is read as the empty collection, or as no array if the array
may be absent, whatever the member was before, and nothing is reported.

The first part is about the step that reads one field of a frame, at any level of nesting and with
either form of header. The second one is about whole objects: each such field has this effect
among the effects that are folded, and if no other field with its id follows, the member of the
object that is read is the empty collection.

**Proof sketch.** Compiling gave the field the layout of its kind, and collections have no fixed
size. So the payload is looked at, unless it has no bytes, and reading stops at its count. -/
theorem decode_null_collection {types : List TypeDecl} {interfaces : InterfaceRegistry}
    {type : String} {schema : Schema} {id : UInt16} {entry : FieldDescriptor} {kind : FieldKind}
    {m : Member} (hschema : (Environment.ofTypes types interfaces).schemaOf type = .ok schema)
    (hentry : schema.entry? id = some (entry, kind)) (hempty : kind.empty? = some m)
    (limits : Limits) {r : Reader} (hr : r.Sound) :
    (∀ (levels : Nat) (format : FieldFormat) (payload : List UInt8),
      format.Admits payload.length → NullCollection payload →
      format.header id payload.length ++ payload <+: r.ahead →
      ∀ (o : Object) (events : List Diagnostic),
        Decode.fieldInto (.ofTypes types interfaces) limits
            (decodeObject (.ofTypes types interfaces) limits levels) schema r.limit o ⟨r, events⟩ =
          .ok (o.set id m) ⟨r.advance (format.width + payload.length), events⟩ ∧
        ∀ k, (o.set id m).get? k =
          if k = id then (o.get? k).map fun _ => m else o.get? k) ∧
    ∀ (o : Object) (report : Report) (r' : Reader),
      decode (.ofTypes types interfaces) limits type r = .ok (o, report) r' →
      ∃ (fresh : Object) (frame : FrameOutline) (fields : List (FieldHeader × FieldEffect)),
        schema.construct = .ok fresh ∧ Read.outline r = .ok frame r' ∧
        fields.map Prod.fst = frame.headers ∧
        (o, report) = fields.foldl
          (fun acc field => (field.2.apply field.1.id acc.1, acc.2 ++ field.2.report)) (fresh, []) ∧
        (∀ field ∈ fields, field.1.id = id → NullCollection (field.1.payload r.bytes) →
          field.2 = ⟨some m, [], []⟩) ∧
        ∀ front field back, fields = front ++ field :: back → field.1.id = id →
          NullCollection (field.1.payload r.bytes) → (∀ other ∈ back, other.1.id ≠ id) →
          o.get? id = (fresh.get? id).map fun _ => m := by
  have hfixed : entry.semantic.fixedSize = none := FieldKind.fixedSize_of_empty hempty
    ((Environment.ofTypes_wellFormed hschema).resolve_eq (Decode.entry?_mem_entries hentry))
  refine ⟨fun levels format payload hadmits hnull hfront o events => ⟨?_, ?_⟩,
    fun o report r' hread => ?_⟩
  · exact Decode.fieldInto_null (fun inner => decodeObject_blind _ limits levels inner)
      (fun inner => decodeObject_local _ limits levels inner) hr hentry hempty hfixed hadmits hnull
      hfront o events
  · exact fun k => Object.get?_set o id k m
  · obtain ⟨levels, schema', fresh, frame, fields, -, hschema', hfresh, hout, hheaders, heffects,
      hfold⟩ := decode_ok_cases hr hread
    cases hschema.symm.trans hschema'
    have hbrings : ∀ field ∈ fields, field.1.id = id →
        NullCollection (field.1.payload r.bytes) → field.2 = ⟨some m, [], []⟩ := by
      intro field hfield hid hnull
      obtain ⟨hwindow, heffect⟩ := heffects field hfield
      rw [Decode.fieldEffect_null (hid.symm ▸ hentry) hempty hfixed hwindow hnull] at heffect
      exact (Except.ok.inj heffect).symm
    refine ⟨fresh, frame, fields, hfresh, hout, hheaders, hfold, hbrings, ?_⟩
    intro front field back hfields hid hnull hback
    have hlast : FieldEffect.lastMember? id fields = some m := by
      have heffect := hbrings field (by simp [hfields]) hid hnull
      rw [hfields, FieldEffect.lastMember?_append, FieldEffect.lastMember?,
        FieldEffect.lastMember?_eq_none hback, if_pos hid, heffect]
      rfl
    rw [show o = (FieldEffect.fold fields (fresh, [])).1 from congrArg Prod.fst hfold,
      FieldEffect.get?_fold, hlast]
    rfl

namespace Sample

/-- A list, and an array that may be absent, neither of them empty in a fresh instance. -/
def seeded : TypeDecl :=
  filled "Seeded" none
    [.field 1 "names" (.list .string) {},
    .field 2 "ints" (optional .intArray) { nullable := true }]
    [(1, .list [.string "seed"]), (2, .value (some (.intArray [7])))]

/-- The schema of the type. -/
def seededSchema : Schema :=
  ⟨⟨"Seeded", [⟨1, "names", .stringList, .list .string, none, {}⟩,
      ⟨2, "ints", .intArray, .array .int, none, { nullable := true }⟩], true⟩,
    [(1, .list .string), (2, optional .intArray)],
    some ⟨[(1, .list [.string "seed"]), (2, .value (some (.intArray [7])))]⟩⟩

/-- A frame with nulls of both forms: a count of minus one with a byte behind it, and nothing at
all behind a header with a word for the size. -/
def seededFrame : Array UInt8 :=
  #[0x45, 0x4F, 17, 0, 1, 0, 5, 0, 0xFF, 0xFF, 0xFF, 0xFF, 9, 2, 0, 0xFF, 0xFF, 0, 0, 0, 0]

/-- What is read of the frame. -/
def seededRead : Object :=
  ⟨[(1, .list []), (2, .value none)]⟩

end Sample

/-- A list that a fresh instance has is replaced by the empty list that a null stands for, and the
field is read into any object in this way. -/
theorem decode_null_collection_seeded :
    decode (.ofTypes [Sample.seeded] .empty) .small "Seeded" (.ofBytes Sample.seededFrame) =
        .ok (Sample.seededRead, []) ⟨Sample.seededFrame, 21, 21⟩ ∧
      Sample.seededRead.get? 1 = some (.list []) ∧
      ∀ (o : Object) (events : List Diagnostic),
        Decode.fieldInto (.ofTypes [Sample.seeded] .empty) .small
            (decodeObject (.ofTypes [Sample.seeded] .empty) .small 3) Sample.seededSchema 21 o
            ⟨⟨Sample.seededFrame, 13, 21⟩, events⟩ =
          .ok (o.set 2 (.value none)) ⟨⟨Sample.seededFrame, 21, 21⟩, events⟩ := by
  have hschema : (Environment.ofTypes [Sample.seeded] .empty).schemaOf "Seeded" =
      .ok Sample.seededSchema := rfl
  have hread : decode (.ofTypes [Sample.seeded] .empty) .small "Seeded"
      (.ofBytes Sample.seededFrame) =
        .ok (Sample.seededRead, []) ⟨Sample.seededFrame, 21, 21⟩ := rfl
  have hnames : Sample.seededSchema.entry? 1 =
      some (⟨1, "names", .stringList, .list .string, none, {}⟩, .list .string) := rfl
  have hints : Sample.seededSchema.entry? 2 =
      some (⟨2, "ints", .intArray, .array .int, none, { nullable := true }⟩,
        Sample.optional .intArray) := rfl
  refine ⟨hread, ?_, fun o events => ?_⟩
  · obtain ⟨fresh, frame, fields, hfresh, hout, hheaders, -, -, hlast⟩ :=
      (decode_null_collection hschema hnames rfl .small
        (Reader.sound_ofBytes (show Sample.seededFrame.size ≤ maxBuffer by decide))).2 _ _ _ hread
    have houtline : Read.outline (.ofBytes Sample.seededFrame) = .ok
        ⟨21, [⟨0x50001, 1, 5, .fixed, 8⟩, ⟨0xFFFF0002, 2, 0, .delimited, 21⟩]⟩
        ⟨Sample.seededFrame, 21, 21⟩ := rfl
    rw [houtline] at hout
    cases hout
    cases hfresh
    obtain ⟨names, ints, rfl⟩ : ∃ names ints, fields = [names, ints] :=
      List.length_eq_two.mp (by rw [← List.length_map, hheaders]; rfl)
    obtain ⟨hfirst, hsecond⟩ : names.1 = _ ∧ [ints.1] = _ := List.cons.inj hheaders
    refine hlast [] names [ints] rfl (by rw [hfirst]) ?_ ?_
    · rw [hfirst]
      exact .inr ⟨[9], rfl⟩
    · intro other hother
      rw [List.mem_singleton.mp hother, (List.cons.inj hsecond).1]
      decide
  · exact ((decode_null_collection hschema hints rfl .small
      (show (Reader.mk Sample.seededFrame 13 21).Sound from
        ⟨by decide, by decide, by decide⟩)).1 3 .delimited [] (show 0 < UInt32.size by decide)
      (.inl rfl) ⟨[], rfl⟩ o events).1

end TaggedParcel
