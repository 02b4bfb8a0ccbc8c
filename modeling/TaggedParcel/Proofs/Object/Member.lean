import TaggedParcel.Proofs.Frame.Outline
import TaggedParcel.Proofs.Object.Assembly

set_option relaxedAutoImplicit false
set_option autoImplicit false

/-!
# What a field does to an object

A field of a frame replaces one member of the object, or none, and adds to the report. What it
adds comes from the objects in its payload, and from the field itself: that it is unknown, that
it was passed over, or that an integer is above its version gate.

## Main definitions

* `Decode.member` — the member that a payload holds, without a look at the version gate.
* `FieldKind.objectType?` — the type of the objects in a field.
* `FieldEffect`, `Decode.fieldEffect` — what a field of a frame does.

## Main results

* `Decode.field_apply` — reading a field is reading its member and looking at the gate.
* `Decode.member_assembled` — payloads are assembled from steps and objects.
* `Decode.fieldInto_cases` — reading a field of a frame has the effect of the field.
-/

namespace TaggedParcel

/-- The type of the objects in a field of this kind. -/
def FieldKind.objectType? : FieldKind → Option String
  | .object type | .objectArray type | .objectList type | .objectMap _ type => some type
  | .value _ _ | .list _ | .map _ _ | .interface _ => none

/-- What a field of a frame does to an object and to the report. -/
structure FieldEffect where
  /-- The member that is replaced, if one is. -/
  member? : Option Member
  /-- What the objects in the payload report. -/
  inner : Report
  /-- What is reported of the field itself. -/
  own : Report

/-- What a field reports: first the objects in it, then the field itself. -/
def FieldEffect.report (effect : FieldEffect) : Report :=
  effect.inner ++ effect.own

/-- An object after a field with an id. -/
def FieldEffect.apply (effect : FieldEffect) (id : UInt16) (o : Object) : Object :=
  match effect.member? with
  | some member => o.set id member
  | none => o

namespace Decode

/-- What a field of an object of the type named `type` holds, whatever its version gate says. -/
def member (env : Environment) (limits : Limits) (nested : ObjectReader) (type : String)
    (header : FieldHeader) (entry : FieldDescriptor) : FieldKind → Decode Member
  | .value kind optional => do
    return .value (← payload (single type limits header entry kind optional))
  | kind => field env limits nested type header entry kind

/-- What the version gate of a field tells of a member. -/
def gateReport (type : String) (entry : FieldDescriptor) : FieldKind → Member → Report
  | .value kind _, .value v =>
    match v.bind kind.gateNumber? with
    | none => []
    | some found =>
      match entry.crossedGate? found with
      | none => []
      | some gate => [.versionGate type entry.name gate found]
  | _, _ => []

/-- The effect of a field with a header, by the bytes that the header says are its payload. It
has none if it fails fatally. -/
def fieldEffect (env : Environment) (limits : Limits) (nested : ObjectReader) (schema : Schema)
    (bytes : Array UInt8) (header : FieldHeader) : Except CodecError FieldEffect :=
  match schema.entry? header.id with
  | none => .ok ⟨none, [], [.unknownField schema.name header.id header.size]⟩
  | some (entry, kind) =>
    match member env limits nested schema.name header entry kind
      ⟨header.window bytes, []⟩ with
    | .ok m s => .ok ⟨some m, s.events.reverse, gateReport schema.name entry kind m⟩
    | .error e s =>
      if e.isFatal then .error e
      else .ok ⟨none, s.events.reverse,
        [.fieldSkipped schema.name entry.name entry.id e.message]⟩

variable {env : Environment} {limits : Limits} {nested : ObjectReader} {type : String}

/-! ## Members -/

/-- A field says at most one thing of a member that it read. -/
lemma length_gateReport_le (type : String) (entry : FieldDescriptor) (kind : FieldKind)
    (m : Member) : (gateReport type entry kind m).length ≤ 1 := by
  unfold gateReport
  split
  · split
    · exact Nat.zero_le _
    · split
      · exact Nat.zero_le _
      · exact Nat.le_refl _
  · exact Nat.zero_le _

/-- All that a field says of a member that it read is that it is above the version gate. -/
lemma eq_versionGate_of_mem_gateReport {type : String} {entry : FieldDescriptor}
    {kind : FieldKind} {m : Member} {event : Diagnostic}
    (h : event ∈ gateReport type entry kind m) :
    ∃ gate found, event = .versionGate type entry.name gate found := by
  unfold gateReport at h
  split at h
  · split at h
    · cases h
    · split at h
      · cases h
      · exact ⟨_, _, List.mem_singleton.mp h⟩
  · cases h

/-- Looking at the version gate adds to the report what the gate tells. -/
lemma watchGate_apply (type : String) (entry : FieldDescriptor) (kind : ValueKind)
    (optional : Bool) (v : Option FieldValue) (s : DecodeState) :
    watchGate type entry kind v s =
      .ok () ⟨s.reader,
        (gateReport type entry (.value kind optional) (.value v)).reverse ++ s.events⟩ := by
  simp only [watchGate, gateReport]
  cases v.bind kind.gateNumber? with
  | none => rfl
  | some found =>
    dsimp only
    cases entry.crossedGate? found <;> rfl

/-- Reading a field is reading its member and looking at the gate. -/
lemma field_apply (env : Environment) (limits : Limits) (nested : ObjectReader) (type : String)
    (header : FieldHeader) (entry : FieldDescriptor) (kind : FieldKind) (s : DecodeState) :
    field env limits nested type header entry kind s =
      match member env limits nested type header entry kind s with
      | .ok m s' => .ok m ⟨s'.reader, (gateReport type entry kind m).reverse ++ s'.events⟩
      | .error e s' => .error e s' := by
  cases kind with
  | value kind optional =>
    simp only [field, member]
    rw [bind_apply, bind_apply]
    cases payload (single type limits header entry kind optional) s with
    | error e s' => rfl
    | ok v s' =>
      dsimp only
      rw [bind_apply, watchGate_apply type entry kind optional v s']
      rfl
  | _ =>
    simp only [member, gateReport]
    cases field env limits nested type header entry _ s <;> rfl

/-- Whether a payload may be null or not, it is read by an assembled step. -/
lemma single_assembled (type : String) (limits : Limits) (header : FieldHeader)
    (entry : FieldDescriptor) (kind : ValueKind) (optional : Bool) :
    Read.Assembled (single type limits header entry kind optional) := by
  unfold single
  extract_lets ofNull
  have hnull : Read.Assembled ofNull := by
    simp only [ofNull]
    split
    · exact Read.Assembled.pure none
    · cases kind.ofNull? with
      | none => exact Read.Assembled.throw _
      | some v => exact Read.Assembled.pure _
  split
  · exact hnull
  · cases entry.semantic.fixedSize with
    | none =>
      refine Read.Assembled.bind (Read.Assembled.valueKind type limits kind) fun v => ?_
      cases v with
      | none => exact hnull
      | some v => exact Read.Assembled.pure _
    | some expected =>
      dsimp only
      split
      · exact Read.Assembled.throw _
      · refine Read.Assembled.bind (Read.Assembled.valueKind type limits kind) fun v => ?_
        cases v with
        | none => exact hnull
        | some v => exact Read.Assembled.pure _

/-- A handle that a factory may change is read by an assembled step. -/
lemma interface_assembled (env : Environment) (proxy : Proxy) :
    Read.Assembled (interface env proxy) := by
  refine Read.Assembled.bind (Read.Assembled.lift Read.Assembled.binder) fun handle => ?_
  cases env.interfaces.resolve? proxy handle with
  | none => exact Read.Assembled.throw _
  | some i => exact Read.Assembled.pure _

/-- An object behind a word with its size is read in the frame of that size. -/
lemma element_eq (nested : ObjectReader) (type : String) :
    element nested type = payload (liftM Read.u32) >>= fun size =>
      if size = 0 then pure none
      else framed size.toNat (nested type) >>= fun o => pure (some o) := by
  unfold element framed
  congr 1
  funext size
  split
  · rfl
  · simp only [bind_assoc, pure_bind]

section Assembled

variable {types : String → Prop}

/-- An object behind its size is assembled of objects. -/
lemma element_assembled {type : String} (h : types type) :
    Assembled nested types (element nested type) := by
  rw [element_eq]
  refine .bind (.payload (Read.Assembled.lift Read.Assembled.u32)) fun size => ?_
  split
  · exact .pure none
  · exact .bind (.framed _ (.object h)) fun o => .pure _

/-- An object behind a tag is assembled of objects. -/
lemma tagged_assembled {type : String} (h : types type) :
    Assembled nested types (tagged nested type) := by
  have htag : Read.Assembled (do ValueTag.parse (← Read.i32) : Read FieldError ValueTag) :=
    Read.Assembled.bind (Read.Assembled.lift Read.Assembled.i32)
      fun code => Read.Assembled.parseTag code
  unfold tagged
  refine .bind (.payload htag) fun tag => ?_
  split
  · exact .pure none
  · exact .bind (.payload (Read.Assembled.lift Read.Assembled.string16)) fun _ =>
      .bind (.object h) fun o => .pure _
  · exact .throw _

/-- An object that must not be missing is assembled if one that may be missing is. -/
lemma required_assembled {m : Decode (Option Object)} (h : Assembled nested types m) :
    Assembled nested types (required m) := by
  refine .bind h fun o => ?_
  cases o with
  | none => exact .throw _
  | some o => exact .pure o

/-- A counted collection is assembled if its items are. -/
lemma collection_assembled {α : Type} (limits : Limits) (header : FieldHeader) {item : Decode α}
    (h : Assembled nested types item) : Assembled nested types (collection limits header item) := by
  unfold collection
  split
  · exact .pure []
  · refine .bind (.payload (Read.Assembled.count limits)) fun count => ?_
    cases count with
    | none => exact .pure []
    | some count => exact h.times count

/-- Payloads are assembled from steps and objects of the type that the field has. -/
theorem member_assembled (env : Environment) (limits : Limits) (nested : ObjectReader)
    (type : String) (header : FieldHeader) (entry : FieldDescriptor) (kind : FieldKind) :
    Assembled nested (fun inner => kind.objectType? = some inner)
      (member env limits nested type header entry kind) := by
  cases kind with
  | value kind optional =>
    exact .bind (.payload (single_assembled type limits header entry kind optional))
      fun v => .pure _
  | list kind =>
    simp only [member, field]
    split
    · exact .pure _
    · exact .bind (.payload (Read.Assembled.list kind entry.semantic limits)) fun _ => .pure _
  | map k v =>
    simp only [member, field]
    split
    · exact .pure _
    · exact .bind (.payload (Read.Assembled.map k v limits)) fun _ => .pure _
  | object inner =>
    simp only [member, field]
    split
    · exact .pure _
    · exact .bind (.object rfl) fun _ => .pure _
  | objectArray inner =>
    exact .bind (collection_assembled limits header (element_assembled rfl)) fun _ => .pure _
  | objectList inner =>
    refine .bind (collection_assembled limits header (required_assembled ?_)) fun _ => .pure _
    split
    · exact tagged_assembled rfl
    · exact element_assembled rfl
  | objectMap k inner =>
    refine .bind (collection_assembled limits header ?_) fun _ => .pure _
    exact .bind (.payload (Read.Assembled.element k limits)) fun key =>
      .bind (required_assembled (tagged_assembled rfl)) fun o => .pure _
  | interface proxy =>
    simp only [member, field]
    split
    · exact .pure _
    · exact .bind (.payload (interface_assembled env proxy)) fun _ => .pure _

end Assembled

/-! ## Fields of a frame -/

/-- A step on frames, in terms of what it does to the reader. -/
lemma frame_apply {α : Type} (step : Read FrameError α) (r : Reader)
    (events : List Diagnostic) :
    frame step ⟨r, events⟩ =
      match step r with
      | .ok a r' => .ok a ⟨r', events⟩
      | .error e r' => .error (.ofFrame e) ⟨r', events⟩ := by
  simp only [frame, onReader]
  cases step r <;> rfl

/-- What a schema has under an id is a field and a kind that it has. -/
lemma entry?_eq_some {schema : Schema} {id : UInt16} {entry : FieldDescriptor} {kind : FieldKind}
    (h : schema.entry? id = some (entry, kind)) :
    schema.descriptor.field? id = some entry ∧ schema.kinds.lookup id = some kind := by
  unfold Schema.entry? at h
  cases hfield : schema.descriptor.field? id with
  | none =>
    rw [hfield] at h
    cases h
  | some field =>
    rw [hfield] at h
    cases hkind : schema.kinds.lookup id with
    | none =>
      rw [hkind] at h
      cases h
    | some kind' =>
      rw [hkind] at h
      cases h
      exact ⟨rfl, rfl⟩

/-- The field that a schema has under an id has that id. -/
lemma entry?_id {schema : Schema} {id : UInt16} {entry : FieldDescriptor} {kind : FieldKind}
    (h : schema.entry? id = some (entry, kind)) : entry.id = id := by
  have hid := List.find?_some (entry?_eq_some h).1
  exact beq_iff_eq.mp hid

/-- The kind that a schema has under an id is among its kinds. -/
lemma entry?_mem {schema : Schema} {id : UInt16} {entry : FieldDescriptor} {kind : FieldKind}
    (h : schema.entry? id = some (entry, kind)) : (id, kind) ∈ schema.kinds := by
  obtain ⟨front, back, hkinds, -⟩ := List.lookup_eq_some_iff.mp (entry?_eq_some h).2
  rw [hkinds]
  exact List.mem_append_right _ List.mem_cons_self

/-- What a schema has under an id is among its entries. -/
lemma entry?_mem_entries {schema : Schema} {id : UInt16} {entry : FieldDescriptor}
    {kind : FieldKind} (h : schema.entry? id = some (entry, kind)) :
    (entry, kind) ∈ schema.entries := by
  obtain ⟨hfield, hkind⟩ := entry?_eq_some h
  refine List.mem_filterMap.mpr ⟨entry, List.mem_of_find?_eq_some hfield, ?_⟩
  rw [entry?_id h, hkind]
  rfl

section FieldInto

variable {r : Reader} {schema : Schema}

/-- A field whose header is corrupt ends the frame around it. -/
lemma fieldInto_corrupt {c : Corruption} {n : Nat}
    (hread : Read.fieldHeader r = .error (.corruption c) (r.advance n)) (stop : Nat) (o : Object)
    (events : List Diagnostic) :
    fieldInto env limits nested schema stop o ⟨r, events⟩ =
      .error (.corruption c) ⟨r.advance n, events⟩ := by
  unfold fieldInto
  rw [bind_apply, frame_apply, hread]
  rfl

/-- A field that promises more bytes than there are ends the frame around it. -/
lemma fieldInto_overread {header : FieldHeader} {n : Nat}
    (hread : Read.fieldHeader r = .ok header (r.advance n)) {stop : Nat}
    (hstop : stop < header.stop) (o : Object) (events : List Diagnostic) :
    fieldInto env limits nested schema stop o ⟨r, events⟩ =
      .error (.corruption (.overread header.stop stop)) ⟨r.advance n, events⟩ := by
  unfold fieldInto
  rw [bind_apply, frame_apply, hread]
  dsimp only
  rw [if_pos hstop]
  rfl

/-- The payload of a field is read on its own window. Behind it the limit is back in force, and
the report has grown by what the objects tell and what the gate tells. -/
lemma within_field_cases (type : String) (entry : FieldDescriptor) (kind : FieldKind)
    (hblind : ∀ inner, Blind (nested inner)) (hlocal : ∀ inner, Local (nested inner))
    (hr : r.Sound) {header : FieldHeader} {n : Nat} (hn : n ≤ r.ahead.length)
    (hstart : header.payloadStart = r.pos + n) (hstop : header.stop ≤ r.limit)
    (events : List Diagnostic) :
    (∃ m k told, n + k ≤ r.ahead.length ∧
      member env limits nested type header entry kind ⟨header.window r.bytes, []⟩ =
        .ok m ⟨(header.window r.bytes).advance k, told⟩ ∧
      within header.stop (field env limits nested type header entry kind)
        ⟨r.advance n, events⟩ =
        .ok m ⟨r.advance (n + k), (gateReport type entry kind m).reverse ++ (told ++ events)⟩) ∨
    ∃ e k told, n + k ≤ r.ahead.length ∧
      member env limits nested type header entry kind ⟨header.window r.bytes, []⟩ =
        .error e ⟨(header.window r.bytes).advance k, told⟩ ∧
      within header.stop (field env limits nested type header entry kind)
        ⟨r.advance n, events⟩ = .error e ⟨r.advance (n + k), told ++ events⟩ := by
  have hlimit := Reader.limit_eq hr
  have hle := FieldHeader.payloadStart_le_stop hr hn hstart
  have hmember := member_assembled env limits nested type header entry kind
  have hroom : header.stop - header.payloadStart ≤ (r.advance n).ahead.length := by
    rw [Reader.ahead_advance, List.length_drop]
    omega
  have hwindow := FieldHeader.window_eq hstart hle
  have hsound := (hr.advance hn).narrow hroom
  have hwithin := within_narrow (field env limits nested type header entry kind)
    (hr.advance hn) hroom events
  rw [hwindow] at hsound
  rw [hwindow, Reader.advance_pos, ← hstart, Nat.add_sub_cancel' hle, field_apply,
    hmember.blind fun inner _ => hblind inner] at hwithin
  have hlength : (header.window r.bytes).ahead.length = header.stop - header.payloadStart :=
    Reader.length_ahead hsound
  -- with the limit back in force, the window is the reader behind the header again
  have hback : ∀ k, (⟨r.bytes, header.payloadStart + k, r.limit⟩ : Reader) =
      r.advance (n + k) := by
    intro k
    rw [hstart, Nat.add_assoc]
    rfl
  rcases (hmember.local fun inner _ => hlocal inner).moves hsound [] with
    ⟨m, k, told, hk, hrun⟩ | ⟨e, k, told, hk, hrun⟩
  · refine .inl ⟨m, k, told, by omega, hrun, ?_⟩
    rw [hwithin, hrun, ← hback]
    rfl
  · refine .inr ⟨e, k, told, by omega, hrun, ?_⟩
    rw [hwithin, hrun, ← hback]
    rfl

/-- Reading a field of a frame has the effect of the field, and goes on where the header says
that the field ends. -/
theorem fieldInto_cases
    (hblind : ∀ inner, Blind (nested inner)) (hlocal : ∀ inner, Local (nested inner))
    (hr : r.Sound) {header : FieldHeader} {n : Nat} (hn : n ≤ r.ahead.length)
    (hstart : header.payloadStart = r.pos + n)
    (hread : Read.fieldHeader r = .ok header (r.advance n)) (hstop : header.stop ≤ r.limit)
    (o : Object) (events : List Diagnostic) :
    match fieldEffect env limits nested schema r.bytes header with
    | .ok effect =>
      fieldInto env limits nested schema r.limit o ⟨r, events⟩ =
        .ok (effect.apply header.id o)
          ⟨r.advance (header.stop - r.pos), effect.report.reverse ++ events⟩
    | .error e => e.isFatal ∧ ∃ k events', k ≤ r.ahead.length ∧
      fieldInto env limits nested schema r.limit o ⟨r, events⟩ =
        .error e ⟨r.advance k, events'⟩ := by
  have hlimit := Reader.limit_eq hr
  have hle := FieldHeader.payloadStart_le_stop hr hn hstart
  have hfield : header.stop - r.pos ≤ r.ahead.length := by omega
  have hend : r.pos + (header.stop - r.pos) = header.stop := by omega
  -- wherever the payload is left, reading goes on at the end of the field
  have hseek : ∀ pos events', seek header.stop ⟨⟨r.bytes, pos, r.limit⟩, events'⟩ =
      .ok () ⟨r.advance (header.stop - r.pos), events'⟩ := by
    intro pos events'
    have hmove := @seek_apply r hr r.bytes pos _ hfield events' rfl
    rw [hend] at hmove
    exact hmove
  unfold fieldInto
  rw [bind_apply, frame_apply, hread]
  dsimp only
  rw [if_neg (by omega)]
  unfold fieldEffect
  cases hentry : schema.entry? header.id with
  | none =>
    show (seek header.stop >>= fun _ => pure o)
      ⟨r.advance n, .unknownField schema.name header.id header.size :: events⟩ = _
    rw [bind_apply, show r.advance n = ⟨r.bytes, r.pos + n, r.limit⟩ from rfl, hseek]
    rfl
  | some registered =>
    obtain ⟨entry, kind⟩ := registered
    have hid := entry?_id hentry
    dsimp only
    rw [bind_apply]
    unfold orSkip
    rcases @within_field_cases env limits nested r schema.name entry kind hblind hlocal hr header n
      hn hstart hstop events with ⟨m, k, told, hk, hrun, hwithin⟩ | ⟨e, k, told, hk, hrun, hwithin⟩
    · rw [hwithin, hrun]
      dsimp only
      rw [bind_apply, show r.advance (n + k) = ⟨r.bytes, r.pos + (n + k), r.limit⟩ from rfl,
        hseek, hid]
      simp only [FieldEffect.report, FieldEffect.apply, List.reverse_append, List.reverse_reverse,
        List.append_assoc]
      rfl
    · rw [hwithin, hrun]
      dsimp only
      by_cases hfatal : e.isFatal
      · rw [if_pos hfatal, if_pos hfatal]
        exact ⟨hfatal, n + k, _, hk, rfl⟩
      · rw [if_neg hfatal, if_neg hfatal]
        dsimp only
        rw [bind_apply, show r.advance (n + k) = ⟨r.bytes, r.pos + (n + k), r.limit⟩ from rfl,
          hseek]
        simp only [FieldEffect.report, FieldEffect.apply, List.reverse_append,
          List.reverse_reverse, List.append_assoc]
        rfl

end FieldInto

end Decode

end TaggedParcel
