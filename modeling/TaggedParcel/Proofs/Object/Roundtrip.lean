import TaggedParcel.Proofs.Object.FieldRoundtrip
import TaggedParcel.Proofs.Object.Fold
import TaggedParcel.Proofs.Schema.Compile
import TaggedParcel.Sample.Nesting

set_option relaxedAutoImplicit false
set_option autoImplicit false

/-!
# Reading back objects

An object that is written without a report is read back as it is. Its frame holds a field for
every member, from which the member is read, except for members of fixed width without a value:
these are the members of a fresh instance already.

## Main definitions

* `Object.Fits` — objects of a type that a reader accepts.
* `Decode.Carries` — bytes that are the fields of an object.

## Main results

* `Encode.fields_carry` — writing an object writes its fields.
* `Decode.Carries.reads` — from the fields the object is read.
* `encodeObject_readsBack` — an object is read back with as many levels of nesting left.
* `decode_encode` — an object is read back from its bytes.
-/

namespace TaggedParcel

/-! ## Members -/

namespace Object

/-- Replacing a member keeps the ids. -/
lemma ids_set (o : Object) (id : UInt16) (m : Member) :
    (o.set id m).members.map Prod.fst = o.members.map Prod.fst := by
  simp only [set, List.map_map]
  apply List.map_congr_left
  intro entry _
  by_cases h : entry.1 = id
  · simp [h]
  · simp [h]

/-- There is no member under an id that the object does not have. -/
lemma get?_eq_none {o : Object} {id : UInt16} (h : id ∉ o.members.map Prod.fst) :
    o.get? id = none := by
  refine List.lookup_eq_none_iff.mpr fun entry hentry => ?_
  have hne : id ≠ entry.1 := fun hid => h (List.mem_map.mpr ⟨entry, hentry, hid.symm⟩)
  simpa using hne

/-- There is a member under every id that the object has. -/
lemma get?_isSome {o : Object} {id : UInt16} (h : id ∈ o.members.map Prod.fst) :
    ∃ m, o.get? id = some m := by
  cases hget : o.get? id with
  | some m => exact ⟨m, rfl⟩
  | none =>
    obtain ⟨entry, hentry, hid⟩ := List.mem_map.mp h
    have hdiffer := List.lookup_eq_none_iff.mp hget entry hentry
    rw [← hid] at hdiffer
    simp at hdiffer

/-- Objects with the same members under the same ids are the same. -/
lemma eq_of_get?_eq {o o' : Object} (hids : o.members.map Prod.fst = o'.members.map Prod.fst)
    (hnodup : (o.members.map Prod.fst).Nodup) (hget : ∀ id, o.get? id = o'.get? id) : o = o' := by
  obtain ⟨members⟩ := o
  obtain ⟨members'⟩ := o'
  congr 1
  induction members generalizing members' with
  | nil => exact (List.map_eq_nil_iff.mp hids.symm).symm
  | cons entry rest ih =>
    cases members' with
    | nil => cases hids
    | cons entry' rest' =>
      obtain ⟨key, m⟩ := entry
      obtain ⟨key', m'⟩ := entry'
      simp only [List.map_cons, List.cons.injEq, List.nodup_cons] at hids hnodup
      obtain ⟨rfl, hids⟩ := hids
      obtain ⟨hnew, hnodup⟩ := hnodup
      have hfirst := hget key
      simp only [get?, List.lookup_cons, beq_self_eq_true, Option.some.injEq] at hfirst
      have hrest : rest = rest' := ih hnodup rest' hids fun id => ?_
      · rw [hfirst, hrest]
      · by_cases hid : id = key
        · have hnew' : key ∉ rest'.map Prod.fst := hids ▸ hnew
          rw [hid, get?_eq_none hnew, get?_eq_none hnew']
        · have hother := hget id
          simp only [get?, List.lookup_cons, beq_eq_false_iff_ne.mpr hid] at hother
          exact hother

end Object

/-- Objects of a type that a reader accepts: the type has a fresh instance and is built from
kinds that are carried as themselves, and every field has a member that it can hold. A member of
fixed width may be without a value only if it is so in a fresh instance. -/
inductive Object.Fits (env : Environment) (limits : Limits) : String → Object → Prop where
  | mk {type : String} {o fresh : Object} {schema : Schema}
    (hschema : env.schemaOf type = .ok schema) (hfresh : schema.construct = .ok fresh)
    (hown : ∀ entry ∈ schema.entries, entry.2.Own)
    (hids : o.members.map Prod.fst = fresh.members.map Prod.fst)
    (hfreshIds : (fresh.members.map Prod.fst).Perm (schema.entries.map fun entry => entry.1.id))
    (hmembers : ∀ entry ∈ schema.entries, ∀ m, o.get? entry.1.id = some m →
      entry.2.Holds env limits m)
    (habsent : ∀ entry ∈ schema.entries, entry.1.semantic.isFixed →
      o.get? entry.1.id = some (.value none) → fresh.get? entry.1.id = some (.value none))
    (hobjects : ∀ entry ∈ schema.entries, ∀ m inner, o.get? entry.1.id = some m →
      entry.2.objectType? = some inner → ∀ nested ∈ m.objects, Fits env limits inner nested) :
    Fits env limits type o

namespace Decode

/-- Bytes that are the fields of an object for some entries of its schema. -/
inductive Carries (env : Environment) (reader : ObjectReader) (schema : Schema) (o : Object) :
    List (FieldDescriptor × FieldKind) → List UInt8 → Prop where
  /-- There are no more entries. -/
  | nil : Carries env reader schema o [] []
  /-- A member of fixed width without a value has no field. -/
  | absent {entry : FieldDescriptor × FieldKind} {rest : List (FieldDescriptor × FieldKind)}
    {bs : List UInt8} (hfixed : entry.1.semantic.isFixed)
    (hget : o.get? entry.1.id = some (.value none)) (hrest : Carries env reader schema o rest bs) :
    Carries env reader schema o (entry :: rest) bs
  /-- Any other member is read from the payload of a field. -/
  | field {entry : FieldDescriptor × FieldKind} {rest : List (FieldDescriptor × FieldKind)}
    {front payload bs : List UInt8} {word : UInt32} {format : FieldFormat} {m : Member}
    (hget : o.get? entry.1.id = some m)
    (hwords : Read.Parses Read.headerWords front (word, payload.length, format))
    (hid : UInt16.ofNat word.toNat = entry.1.id)
    (hmember : ∀ header : FieldHeader, header.size = payload.length →
      Parses (member env .standard reader schema.name header entry.1 entry.2) payload m)
    (hrest : Carries env reader schema o rest bs) :
    Carries env reader schema o (entry :: rest) (front ++ payload ++ bs)

end Decode

namespace Encode

variable {env : Environment} {nested : ObjectWriter} {reader : ObjectReader} {schema : Schema}
  {o : Object}

/-- Where nothing is reported, a field was not left out. -/
lemma orOmit_ok {type : String} {entry : FieldDescriptor} {body : Encode Unit}
    {s s' : EncodeState} (h : orOmit type entry body s = .ok () s') (hclean : s'.events = []) :
    body s = .ok () s' := by
  obtain ⟨start, s₁, hposition, h⟩ := bind_ok h
  cases hposition
  cases hbody : body s with
  | ok u s₂ =>
    simp only [hbody] at h
    exact h
  | error e s₂ =>
    obtain ⟨w, events⟩ := s₂
    simp only [hbody] at h
    split at h
    · cases h
    · cases h
      cases hclean

/-- Writing an object without a report writes its fields.

**Proof sketch.** Induction on the entries. As nothing is reported in the end, nothing was
reported before, so that every field was written as it should be. -/
theorem fields_carry {entries : List (FieldDescriptor × FieldKind)}
    (hwrites : ∀ entry ∈ entries, ∃ m, o.get? entry.1.id = some m ∧
      WritesMember env nested reader schema.name entry.1 entry.2 m) :
    Appends
      (each (fun entry => orOmit schema.name entry.1 (member env nested schema.name o entry))
        entries)
      (Decode.Carries env reader schema o entries) := by
  induction entries with
  | nil =>
    intro s s' h hclean
    cases h
    exact ⟨hclean, [], Writer.append_nil.symm, fun _ => .nil⟩
  | cons entry rest ih =>
    intro s s' h hclean
    rw [each_cons] at h
    obtain ⟨_, s₁, hfirst, hrest⟩ := bind_ok h
    obtain ⟨hclean₁, bs, hbs, hcarries⟩ :=
      ih (fun entry hentry => hwrites entry (List.mem_cons_of_mem _ hentry)) s₁ s' hrest hclean
    obtain ⟨m, hget, hfield⟩ := hwrites entry List.mem_cons_self
    have hmember := orOmit_ok hfirst hclean₁
    simp only [member, hget] at hmember
    rcases hfield with ⟨rfl, hfixed, hnothing⟩ | hwrite
    · cases hnothing s s₁ hmember
      exact ⟨hclean₁, bs, hbs, fun hlength => .absent hfixed hget (hcarries hlength)⟩
    · obtain ⟨hclean₀, front, payload, word, format, hwriter, hwords, hid, hparses⟩ :=
        hwrite s s₁ hmember hclean₁
      refine ⟨hclean₀, front ++ payload ++ bs, ?_, fun hlength => ?_⟩
      · rw [hbs, hwriter, Writer.append_append]
      · rw [List.length_append, List.length_append] at hlength
        exact .field hget hwords hid (hparses (by omega)) (hcarries (by omega))

end Encode

/-- A header takes some bytes. -/
lemma Read.Parses.headerWords_ne_nil {front : List UInt8} {word : UInt32} {size : Nat}
    {format : FieldFormat} (h : Read.Parses Read.headerWords front (word, size, format)) :
    front ≠ [] := by
  rintro rfl
  have hrun := h (.ofBytes #[]) (Reader.sound_ofBytes (by decide)) List.nil_prefix
  cases hrun

namespace Decode

variable {env : Environment} {reader : ObjectReader} {schema : Schema} {o : Object}
  (hblind : ∀ inner, Blind (reader inner)) (hlocal : ∀ inner, Local (reader inner))
include hblind hlocal

/-- A member that is read from the payload of a field becomes the member of the object. -/
lemma fieldInto_parses {entry : FieldDescriptor × FieldKind}
    (hentry : schema.entry? entry.1.id = some entry) {front payload : List UInt8} {word : UInt32}
    {format : FieldFormat} {m : Member}
    (hwords : Read.Parses Read.headerWords front (word, payload.length, format))
    (hid : UInt16.ofNat word.toNat = entry.1.id)
    (hmember : ∀ header : FieldHeader, header.size = payload.length →
      Parses (member env .standard reader schema.name header entry.1 entry.2) payload m)
    {r : Reader} (hr : r.Sound) (hfront : front ++ payload <+: r.ahead) (cur : Object)
    (events : List Diagnostic) :
    ∃ told : Report, told.OnlyGates ∧
      fieldInto env .standard reader schema r.limit cur ⟨r, events⟩ =
        .ok (cur.set entry.1.id m) ⟨r.advance (front ++ payload).length, told ++ events⟩ := by
  have hlength := hfront.length_le
  rw [List.length_append] at hlength
  obtain ⟨header, hread, hheaderId, hsize, hstart⟩ := Read.fieldHeader_of_parses hr hwords
    ((List.prefix_append _ _).trans hfront)
  rw [hid] at hheaderId
  obtain ⟨hstop, hmove, hwindow, hpayload⟩ :=
    FieldHeader.window_of_prefix hr hstart hsize hfront
  obtain ⟨told, htold, hrun⟩ := hmember header hsize _ hwindow
    (by simp only [hpayload, List.prefix_rfl]) []
  have heffect : fieldEffect env .standard reader schema r.bytes header =
      .ok ⟨some m, (told ++ []).reverse, gateReport schema.name entry.1 entry.2 m⟩ := by
    obtain ⟨field, kind⟩ := entry
    unfold fieldEffect
    rw [hheaderId, hentry]
    dsimp only
    rw [hrun]
  have hinto := @fieldInto_cases env .standard reader r schema hblind hlocal hr header
    front.length (by omega) hstart hread hstop cur events
  rw [heffect] at hinto
  refine ⟨(FieldEffect.report ⟨some m, (told ++ []).reverse,
    gateReport schema.name entry.1 entry.2 m⟩).reverse, fun event hevent => ?_, ?_⟩
  · simp only [FieldEffect.report, List.mem_reverse, List.mem_append, List.append_nil] at hevent
    rcases hevent with hevent | hevent
    · exact htold event hevent
    · obtain ⟨gate, found, hgate⟩ := eq_versionGate_of_mem_gateReport hevent
      exact ⟨_, _, gate, found, hgate⟩
  · rw [hinto, hmove, hheaderId]
    rfl

/-- From the fields of an object its members are read, if the members without fields are there
already.

**Proof sketch.** Induction on the fields. Each field replaces its own member. The members of
later entries stay as they were, because no two entries share an id. -/
theorem Carries.reads {entries : List (FieldDescriptor × FieldKind)} {bs : List UInt8}
    (h : Carries env reader schema o entries bs)
    (hentries : ∀ entry ∈ entries, schema.entry? entry.1.id = some entry)
    (hnodup : (entries.map fun entry => entry.1.id).Nodup) {cur : Object}
    (hids : ∀ entry ∈ entries, entry.1.id ∈ cur.members.map Prod.fst)
    (habsent : ∀ entry ∈ entries, entry.1.semantic.isFixed →
      o.get? entry.1.id = some (.value none) → cur.get? entry.1.id = some (.value none))
    {r : Reader} (hr : r.Sound) (hahead : r.ahead = bs) {fuel : Nat} (hfuel : bs.length ≤ fuel)
    (events : List Diagnostic) :
    ∃ (told : Report) (cur' : Object), told.OnlyGates ∧
      fieldsInto env .standard reader schema r.limit fuel cur ⟨r, events⟩ =
        .ok cur' ⟨r.advance bs.length, told ++ events⟩ ∧
      cur'.members.map Prod.fst = cur.members.map Prod.fst ∧
      ∀ id, cur'.get? id =
        if id ∈ entries.map fun entry => entry.1.id then o.get? id else cur.get? id := by
  induction h generalizing cur r fuel events with
  | nil =>
    have hlimit := Reader.limit_eq hr
    rw [hahead] at hlimit
    refine ⟨[], cur, Report.onlyGates_nil, ?_, rfl, fun id => ?_⟩
    · exact fieldsInto_end env .standard reader schema fuel cur events hlimit.symm
    · rfl
  | @absent entry rest bs hfixed hget hrest ih =>
    rw [List.map_cons, List.nodup_cons] at hnodup
    obtain ⟨told, cur', htold, hrun, hids', hget'⟩ := ih
      (fun other hother => hentries other (List.mem_cons_of_mem _ hother)) hnodup.2
      (fun other hother => hids other (List.mem_cons_of_mem _ hother))
      (fun other hother => habsent other (List.mem_cons_of_mem _ hother)) hr hahead hfuel events
    refine ⟨told, cur', htold, hrun, hids', fun id => ?_⟩
    rw [hget' id, List.map_cons]
    by_cases hid : id = entry.1.id
    · rw [hid, if_neg hnodup.1, if_pos List.mem_cons_self, hget]
      exact habsent entry List.mem_cons_self hfixed hget
    · simp only [List.mem_cons, hid, false_or]
  | @field entry rest front payload bs word format m hget hwords hid hmember hrest ih =>
    rw [List.map_cons, List.nodup_cons] at hnodup
    have hfront := hwords.headerWords_ne_nil
    have hlength := congrArg List.length hahead
    rw [List.length_append] at hlength hfuel
    have hlimit := Reader.limit_eq hr
    have hsize : 0 < (front ++ payload).length := by
      rw [List.length_append]
      exact Nat.lt_of_lt_of_le (List.length_pos_iff.mpr hfront) (Nat.le_add_right _ _)
    obtain ⟨told, htold, hinto⟩ := fieldInto_parses hblind hlocal
      (hentries entry List.mem_cons_self) hwords hid hmember hr
      (by rw [hahead]; exact List.prefix_append _ _) cur events
    cases fuel with
    | zero => omega
    | succ fuel =>
      have hother : ∀ other ∈ rest, other.1.id ≠ entry.1.id := fun other hmem hsame =>
        hnodup.1 (hsame ▸ List.mem_map.mpr ⟨other, hmem, rfl⟩)
      have hrestIds : ∀ other ∈ rest,
          other.1.id ∈ (cur.set entry.1.id m).members.map Prod.fst := by
        intro other hmem
        rw [Object.ids_set]
        exact hids other (List.mem_cons_of_mem _ hmem)
      have hrestAbsent : ∀ other ∈ rest, other.1.semantic.isFixed →
          o.get? other.1.id = some (.value none) →
          (cur.set entry.1.id m).get? other.1.id = some (.value none) := by
        intro other hmem hfixed hnone
        rw [Object.get?_set, if_neg (hother other hmem)]
        exact habsent other (List.mem_cons_of_mem _ hmem) hfixed hnone
      have hadvance := hr.advance (show (front ++ payload).length ≤ r.ahead.length by omega)
      have hbehind : (r.advance (front ++ payload).length).ahead = bs := by
        rw [Reader.ahead_advance, hahead, List.drop_left]
      obtain ⟨told', cur', htold', hrun, hids', hget'⟩ :=
        ih (fun other hmem => hentries other (List.mem_cons_of_mem _ hmem)) hnodup.2 hrestIds
          hrestAbsent hadvance hbehind (show bs.length ≤ fuel by omega) (told ++ events)
      refine ⟨told' ++ told, cur', htold'.append htold, ?_, ?_, fun id => ?_⟩
      · rw [fieldsInto_step env .standard reader schema fuel cur events (by omega), hinto]
        dsimp only
        rw [Reader.advance_limit] at hrun
        have hmove : (front ++ payload).length + bs.length = (front ++ payload ++ bs).length :=
          List.length_append.symm
        rw [hrun, Reader.advance_advance, hmove, ← List.append_assoc]
      · rw [hids', Object.ids_set]
      · rw [hget' id, List.map_cons, Object.get?_set]
        by_cases hsame : id = entry.1.id
        · obtain ⟨before, hbefore⟩ := Object.get?_isSome (hids entry List.mem_cons_self)
          rw [hsame, if_neg hnodup.1, if_pos rfl, if_pos List.mem_cons_self, hget, hbefore]
          rfl
        · rw [if_neg hsame]
          simp only [List.mem_cons, hsame, false_or]

/-- Where a frame of fields lies ahead, the fields are read, and reading goes on behind them. -/
lemma objectFrame_of_ahead {limits : Limits} {bs : List UInt8}
    (hsize : bs.length < UInt32.size) (hlarge : bs.length ≤ limits.maxObjectBytes) {r : Reader}
    (hr : r.Sound) (hfront : LittleEndian.digits 4 objectWord.toNat ++
      (LittleEndian.digits 4 bs.length ++ bs) <+: r.ahead) (fresh : Object)
    (events : List Diagnostic) :
    ((r.advance 8).narrow bs.length).Sound ∧ ((r.advance 8).narrow bs.length).ahead = bs ∧
      objectFrame env limits reader schema fresh ⟨r, events⟩ =
        match fields env limits reader schema bs.length fresh
          ⟨(r.advance 8).narrow bs.length, events⟩ with
        | .ok o s => .ok o ⟨r.advance (8 + bs.length), s.events⟩
        | .error e s => .error e ⟨⟨s.reader.bytes, s.reader.pos, r.limit⟩, s.events⟩ := by
  have hlength := hfront.length_le
  simp only [List.length_append, LittleEndian.length_digits] at hlength
  have hread := Read.objectHeader_of_prefix hr hsize hfront
  have hadvance := hr.advance (show 8 ≤ r.ahead.length by omega)
  have hbehind : (r.advance 8).ahead.take bs.length = bs := by
    obtain ⟨rest, hrest⟩ := hfront
    have hsplit : LittleEndian.digits 4 objectWord.toNat ++
        (LittleEndian.digits 4 bs.length ++ bs) ++ rest =
        (LittleEndian.digits 4 objectWord.toNat ++ LittleEndian.digits 4 bs.length) ++
          (bs ++ rest) := by
      simp only [List.append_assoc]
    rw [Reader.ahead_advance, ← hrest, hsplit, List.drop_left' (by simp), List.take_left]
  have hroom : bs.length ≤ (r.advance 8).ahead.length := by
    rw [Reader.ahead_advance, List.length_drop]
    omega
  refine ⟨hadvance.narrow hroom, (Reader.ahead_narrow hadvance hroom).trans hbehind, ?_⟩
  rw [objectFrame_apply hr (by omega) hread, if_neg (by omega),
    framed_of_le (fields_local env limits hblind hlocal schema bs.length fresh) hadvance hroom]
  cases fields env limits reader schema bs.length fresh
    ⟨(r.advance 8).narrow bs.length, events⟩ with
  | ok o s =>
    dsimp only
    rw [Reader.advance_advance]
  | error e s => rfl

/-- A frame whose fields carry an object is read as this object. -/
lemma objectFrame_parses (hschema : schema.WellFormed) {fresh : Object} {bs : List UInt8}
    (h : Carries env reader schema o schema.entries bs)
    (hids : o.members.map Prod.fst = fresh.members.map Prod.fst)
    (hfreshIds : (fresh.members.map Prod.fst).Perm (schema.entries.map fun entry => entry.1.id))
    (habsent : ∀ entry ∈ schema.entries, entry.1.semantic.isFixed →
      o.get? entry.1.id = some (.value none) → fresh.get? entry.1.id = some (.value none))
    (hsize : bs.length < UInt32.size) (hlarge : bs.length ≤ Limits.standard.maxObjectBytes) :
    Parses (objectFrame env .standard reader schema fresh)
      (LittleEndian.digits 4 objectWord.toNat ++ (LittleEndian.digits 4 bs.length ++ bs)) o := by
  intro r hr hfront events
  obtain ⟨hsound, hahead, hframe⟩ := @objectFrame_of_ahead env reader schema hblind hlocal
    .standard bs hsize hlarge r hr hfront fresh events
  have hnodup := hschema.entries_nodup
  obtain ⟨told, o', htold, hrun, hids', hget⟩ := Carries.reads hblind hlocal h
    (fun entry hentry => hschema.entry?_eq hentry) hnodup
    (fun entry hentry => hfreshIds.mem_iff.mpr (List.mem_map.mpr ⟨entry, hentry, rfl⟩)) habsent
    hsound hahead (Nat.le_refl _) events
  have hsame : o' = o := by
    refine Object.eq_of_get?_eq (hids'.trans hids.symm) ?_ fun id => ?_
    · rw [hids', hfreshIds.nodup_iff]
      exact hnodup
    · rw [hget id]
      by_cases hmem : id ∈ schema.entries.map fun entry => entry.1.id
      · rw [if_pos hmem]
      · have hnone : id ∉ fresh.members.map Prod.fst := fun h => hmem (hfreshIds.mem_iff.mp h)
        rw [if_neg hmem, Object.get?_eq_none hnone, Object.get?_eq_none (hids ▸ hnone)]
  have hfields : fields env .standard reader schema bs.length fresh
      ⟨(r.advance 8).narrow bs.length, events⟩ = _ := hrun
  have hmove : 8 + bs.length = (LittleEndian.digits 4 objectWord.toNat ++
      (LittleEndian.digits 4 bs.length ++ bs)).length := by
    simp only [List.length_append, LittleEndian.length_digits]
    omega
  refine ⟨told, htold, ?_⟩
  rw [hframe, hfields, hsame, ← hmove]

end Decode

/-- What needs a type to be described needs bytes if it does so for every description. -/
lemma Decode.NeedsBytes.described {α β : Type} {result : Except SchemaError α}
    {next : α → Decode β} (h : ∀ a, NeedsBytes (next a)) :
    NeedsBytes (described result >>= next) := by
  cases result with
  | error e => exact ⟨_, _, rfl⟩
  | ok a => exact h a

/-- There is no object where there are no bytes. -/
lemma decodeObject_needsBytes (env : Environment) (limits : Limits) (levels : Nat)
    (type : String) : Decode.NeedsBytes (decodeObject env limits levels type) := by
  cases levels with
  | zero => exact .described fun schema => .described fun fresh => ⟨_, _, rfl⟩
  | succ levels => exact .described fun schema => .described fun fresh => ⟨_, _, rfl⟩

/-- An object is read back with as many levels of nesting left.

**Proof sketch.** Induction on the levels. The objects in a member are one level deeper, so that
every field is written as it should be, and from the fields the object is read. -/
theorem encodeObject_readsBack {env : Environment}
    (hcompiled : ∀ type schema, env.schemaOf type = .ok schema → schema.WellFormed)
    (levels : Nat) {type : String} {o : Object} (h : o.Fits env .standard type) :
    Encode.ReadsBack (encodeObject env levels type o) (decodeObject env .standard levels type)
      o := by
  induction levels generalizing type o with
  | zero => exact Encode.ReadsBack.schema fun found => Encode.ReadsBack.throw _ _ o
  | succ levels ih =>
    cases h with
    | @mk _ _ fresh schema hschema hfresh hown hids hfreshIds hmembers habsent hobjects =>
      intro s s' hrun hclean
      obtain ⟨found, hfound, hframe⟩ := Encode.schema_bind_ok hrun
      rw [hschema] at hfound
      cases hfound
      have hwf := hcompiled type schema hschema
      have hfields : Encode.Appends
          (Encode.each (fun entry => Encode.orOmit schema.name entry.1
            (Encode.member env (encodeObject env levels) schema.name o entry)) schema.entries)
          (Decode.Carries env (decodeObject env .standard levels) schema o schema.entries) := by
        refine Encode.fields_carry fun entry hentry => ?_
        have hmem : entry.1.id ∈ o.members.map Prod.fst := by
          rw [hids, hfreshIds.mem_iff]
          exact List.mem_map.mpr ⟨entry, hentry, rfl⟩
        obtain ⟨m, hget⟩ := Object.get?_isSome hmem
        refine ⟨m, hget, Encode.field_writes
          (decodeObject_needsBytes env .standard levels) (hown entry hentry)
          (hwf.resolve_eq hentry) (hmembers entry hentry m hget) fun inner hinner nested hnested =>
            ih (hobjects entry hentry m inner hget hinner nested hnested)⟩
      have hextent : (Encode.each (fun entry => Encode.orOmit schema.name entry.1
          (Encode.member env (encodeObject env levels) schema.name o entry)) schema.entries >>=
            fun _ => Encode.closeExtent CodecError.ofFrame FrameError.buffer
              ⟨(s.writer.append (LittleEndian.digits 4 objectWord.toNat)).position⟩)
          ⟨(s.writer.append (LittleEndian.digits 4 objectWord.toNat)).append
            (LittleEndian.digits 4 0), s.events⟩ = .ok () s' := hframe
      obtain ⟨hclean₀, bs, hbs, hlt, hcarries⟩ := Encode.extent_ok hfields hextent hclean
      rw [Writer.append_append] at hbs
      refine ⟨hclean₀, _, hbs, fun hlength r hr hfront events => ?_⟩
      simp only [List.length_append, LittleEndian.length_digits, largestFrame] at hlength
      rw [decodeObject_apply .standard levels hschema hfresh]
      exact Decode.objectFrame_parses (fun inner => decodeObject_blind env .standard levels inner)
        (fun inner => decodeObject_local env .standard levels inner) hwf
        (hcarries (by unfold largestFrame; omega)) hids hfreshIds habsent hlt
        (show bs.length ≤ 1048576 by omega) r hr hfront events

/-- An object that is written without a report is read back as it is, from bytes with no more
than a mebibyte of fields, and all that reading reports is that integers are above the version
gates of their fields. -/
theorem decode_encode {types : List TypeDecl} {interfaces : InterfaceRegistry} {type : String}
    {o : Object} {w : Writer} (hfits : o.Fits (.ofTypes types interfaces) .standard type)
    (hclean : encode (.ofTypes types interfaces) type o .empty = (.ok [], w))
    (hregion : w.bytes.size ≤ 8 + 1048576) :
    toBytes (.ofTypes types interfaces) type o = .ok w.bytes ∧
    ofBytes (.ofTypes types interfaces) type w.bytes = .ok o ∧
    ∃ report r, decode (.ofTypes types interfaces) .standard type (.ofBytes w.bytes) =
        .ok (o, report) r ∧
      ∀ event ∈ report, ∃ name field gate found, event = .versionGate name field gate found := by
  have hbytes : toBytes (.ofTypes types interfaces) type o = .ok w.bytes := by
    unfold toBytes
    rw [hclean]
  unfold encode at hclean
  cases hrun : encodeObject (.ofTypes types interfaces) encodeDepth type o ⟨.empty, []⟩ with
  | error e s =>
    rw [hrun] at hclean
    cases hclean
  | ok u s =>
    rw [hrun] at hclean
    injection hclean with hreport hwriter
    injection hreport with hreport
    have hevents : s.events = [] := List.reverse_eq_nil_iff.mp hreport
    obtain ⟨-, bs, hbs, hparses⟩ := encodeObject_readsBack
      (fun _ _ h => Environment.ofTypes_wellFormed h) encodeDepth hfits _ s hrun hevents
    have hlist : w.bytes.toList = bs := by
      rw [← hwriter, hbs, Writer.append_eq_toArray]
      rfl
    have hlength : bs.length ≤ largestFrame := by
      rw [← hlist, Array.length_toList]
      exact hregion
    have hsound : (Reader.ofBytes w.bytes).Sound :=
      Reader.sound_ofBytes (Nat.le_trans hregion (by decide))
    obtain ⟨told, htold, hread⟩ := hparses hlength _ hsound
      (by simp only [Reader.ahead_ofBytes, hlist, List.prefix_rfl]) []
    have hdecode : decode (.ofTypes types interfaces) .standard type (.ofBytes w.bytes) =
        .ok (o, (told ++ []).reverse) ((Reader.ofBytes w.bytes).advance bs.length) := by
      unfold decode
      rw [show Limits.standard.maxDepth = encodeDepth from rfl, hread]
    refine ⟨hbytes, ?_, _, _, hdecode, fun event hevent => htold event ?_⟩
    · unfold ofBytes
      rw [hdecode]
    · simpa using hevent

namespace Sample

/-- The types of the object below. -/
def middles : List TypeDecl :=
  [middle "", point ""]

/-- The schema of an object with a point in it. -/
def middleSchema : Schema :=
  ⟨⟨"Middle", [⟨1, "inner", .object, .object "Point", some "Point", { nullable := true }⟩,
      ⟨2, "gate", .int, .int, none, { versionGate := some 1 }⟩], true⟩,
    [(1, .object "Point"), (2, .value (.plain .int) false)],
    some ⟨[(1, .object none), (2, .value (some (.int 0)))]⟩⟩

/-- A point. -/
def corner : Object :=
  ⟨[(1, .value (some (.int 5))), (2, .value (some (.int (-7))))]⟩

/-- An object with a point in it, and with an integer above its version gate. -/
def middleObject : Object :=
  ⟨[(1, .object (some corner)), (2, .value (some (.int 3)))]⟩

/-- The bytes of the object. -/
def middleFrame : Array UInt8 :=
  #[0x45, 0x4F, 0xFF, 0xFF, 40, 0, 0, 0,
    1, 0, 0xFF, 0xFF, 24, 0, 0, 0,
    0x45, 0x4F, 0xFF, 0xFF, 16, 0, 0, 0, 1, 0, 4, 0, 5, 0, 0, 0, 2, 0, 4, 0, 249, 255, 255, 255,
    2, 0, 4, 0, 3, 0, 0, 0]

/-- The corner fits its type. -/
lemma corner_fits : corner.Fits (.ofTypes middles .empty) .standard "Point" := by
  have hentries : pointSchema.entries =
      [(⟨1, "x", .int, .int, none, {}⟩, .value (.plain .int) false),
        (⟨2, "y", .int, .int, none, {}⟩, .value (.plain .int) false)] := rfl
  refine @Object.Fits.mk _ _ "Point" corner _ pointSchema rfl rfl ?_ rfl (.refl _) ?_ ?_ ?_
  all_goals
    intro entry hentry
    rw [hentries] at hentry
    rcases List.mem_pair.mp hentry with rfl | rfl
  · trivial
  · trivial
  · intro m hm
    cases hm
    exact ⟨rfl, trivial⟩
  · intro m hm
    cases hm
    exact ⟨rfl, trivial⟩
  · intro _ hm
    cases hm
  · intro _ hm
    cases hm
  · intro m inner _ hinner
    cases hinner
  · intro m inner _ hinner
    cases hinner

/-- The object of the frame below fits its type. -/
lemma middle_fits : middleObject.Fits (.ofTypes middles .empty) .standard "Middle" := by
  have hentries : middleSchema.entries =
      [(⟨1, "inner", .object, .object "Point", some "Point", { nullable := true }⟩,
          .object "Point"),
        (⟨2, "gate", .int, .int, none, { versionGate := some 1 }⟩,
          .value (.plain .int) false)] := rfl
  refine @Object.Fits.mk _ _ "Middle" middleObject _ middleSchema rfl rfl ?_ rfl (.refl _) ?_ ?_ ?_
  all_goals
    intro entry hentry
    rw [hentries] at hentry
    rcases List.mem_pair.mp hentry with rfl | rfl
  · trivial
  · trivial
  · intro m hm
    cases hm
    trivial
  · intro m hm
    cases hm
    exact ⟨rfl, trivial⟩
  · intro hfixed
    cases hfixed
  · intro _ hm
    cases hm
  · intro m inner hm hinner nested hnested
    cases hm
    cases hinner
    rw [List.mem_singleton.mp hnested]
    exact corner_fits
  · intro m inner _ hinner
    cases hinner

end Sample

/-- An object with another one in it is read back from the frame that it is written as. -/
theorem decode_encode_middle :
    Sample.middleObject.Fits (.ofTypes Sample.middles .empty) .standard "Middle" ∧
    encode (.ofTypes Sample.middles .empty) "Middle" Sample.middleObject .empty =
      (.ok [], ⟨Sample.middleFrame⟩) ∧
    Sample.middleFrame.size ≤ 8 + 1048576 ∧
    ofBytes (.ofTypes Sample.middles .empty) "Middle" Sample.middleFrame =
      .ok Sample.middleObject := by
  have hclean : encode (.ofTypes Sample.middles .empty) "Middle" Sample.middleObject .empty =
      (.ok [], ⟨Sample.middleFrame⟩) := rfl
  have hregion : Sample.middleFrame.size ≤ 8 + 1048576 := by decide
  exact ⟨Sample.middle_fits, hclean, hregion,
    (decode_encode Sample.middle_fits hclean hregion).2.1⟩

end TaggedParcel
