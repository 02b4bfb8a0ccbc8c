import TaggedParcel.Proofs.Object.Fold

set_option relaxedAutoImplicit false
set_option autoImplicit false

/-!
# How reading fails

Reading an object fails for one of four reasons: there is no usable type, a header is corrupt,
objects nest too deep, or the frame is too large. Whatever else goes wrong goes wrong inside a
field, and there it is caught: the field is passed over and reported. However reading ends, the
limit is the one that was in force before, and the position is not behind it.

## Main definitions

* `CodecError.Documented` — the four reasons.
* `Decode.Absorbs` — reports that tell of every failure inside a field.

## Main results

* `decodeObject_error` — reading an object, at any level of nesting, fails for no other reason.
* `Decode.fieldInto_error` — what becomes of a failure inside a field.
* `decode_absorbs` — if an object is read, all failures inside its fields are in the report.
* `decode_documented` — how reading ends, and where it leaves the reader.
-/

namespace TaggedParcel

/-- The reasons for which reading an object fails under some limits. -/
inductive CodecError.Documented (limits : Limits) : CodecError → Prop where
  /-- The type, or one of an object inside, has no usable description. -/
  | schema (e : SchemaError) : Documented limits (.schema e)
  /-- A header is no header of an object, or it promises bytes that are not there. -/
  | corruption (c : Corruption) : Documented limits (.corruption c)
  /-- There is one object too many inside another. -/
  | tooDeep : Documented limits (.depthExceeded (limits.maxDepth + 1) limits.maxDepth)
  /-- The fields take more bytes than an object may have. -/
  | tooLarge {size : Nat} (h : limits.maxObjectBytes < size) :
    Documented limits (.field (.limit ⟨.objectBytes, limits.maxObjectBytes, size⟩))

/-- What needs a type to be described fails for want of a description, or later. -/
lemma Decode.described_bind_error {α β : Type} {result : Except SchemaError α}
    {next : α → Decode β} {s s' : DecodeState} {e : CodecError}
    (h : (described result >>= next) s = .error e s') :
    (∃ e', e = .schema e') ∨ ∃ a, result = .ok a ∧ next a s = .error e s' := by
  cases result with
  | ok a => exact .inr ⟨a, rfl, h⟩
  | error e' =>
    cases h
    exact .inl ⟨e', rfl⟩

variable {env : Environment} {limits : Limits} {type : String} {r : Reader}

/-- Reading an object fails for a documented reason, whatever levels of nesting are left.

**Proof sketch.** Induction on the levels. A fatal failure in a field is that of an object inside,
which is one level deeper. A failure of any other kind stays in the field. -/
theorem decodeObject_error {levels : Nat} (hr : r.Sound) {e : CodecError} {s : DecodeState}
    (h : decodeObject env limits levels type ⟨r, []⟩ = .error e s) : e.Documented limits := by
  induction levels generalizing type r e s with
  | zero =>
    rcases Decode.described_bind_error h with ⟨e', rfl⟩ | ⟨schema, -, h⟩
    · exact .schema e'
    · rcases Decode.described_bind_error h with ⟨e', rfl⟩ | ⟨fresh, -, h⟩
      · exact .schema e'
      · cases h
        exact .tooDeep
  | succ levels ih =>
    rcases Decode.described_bind_error h with ⟨e', rfl⟩ | ⟨schema, -, h⟩
    · exact .schema e'
    rcases Decode.described_bind_error h with ⟨e', rfl⟩ | ⟨fresh, -, h⟩
    · exact .schema e'
    have hblind := fun inner => decodeObject_blind env limits levels inner
    have hlocal := fun inner => decodeObject_local env limits levels inner
    rcases Decode.objectFrame_cases env limits schema hblind hlocal hr fresh with
      ⟨frame, fields, -, -, -, hframe⟩ | ⟨c, -, s', hframe⟩ |
      ⟨header, e', hwindow, -, heffect, -, s', hframe⟩ | ⟨size, hlarge, -, s', hframe⟩
    · rw [hframe] at h
      cases h
    · rw [hframe] at h
      cases h
      exact .corruption c
    · rw [hframe] at h
      cases h
      obtain ⟨entry, kind, inner, r', s'', -, -, hr', -, hobject, -⟩ :=
        Decode.fieldEffect_error hblind hlocal hwindow heffect
      exact ih hr' hobject
    · rw [hframe] at h
      cases h
      exact .tooLarge hlarge

/-- The effect of a field that cannot be read: none if the failure is fatal, else that it is
reported, behind what the objects in the field reported. -/
lemma Decode.fieldEffect_of_error {nested : ObjectReader} {schema : Schema} {bytes : Array UInt8}
    {header : FieldHeader} {entry : FieldDescriptor} {kind : FieldKind} {e : CodecError}
    {s : DecodeState} (hentry : schema.entry? header.id = some (entry, kind))
    (hfield : field env limits nested schema.name header entry kind ⟨header.window bytes, []⟩ =
      .error e s) :
    fieldEffect env limits nested schema bytes header =
      if e.isFatal then .error e
      else .ok ⟨none, s.events.reverse,
        [.fieldSkipped schema.name entry.name entry.id e.message]⟩ := by
  have hmember : member env limits nested schema.name header entry kind
      ⟨header.window bytes, []⟩ = .error e s := by
    rw [field_apply] at hfield
    split at hfield
    · cases hfield
    · cases hfield
      assumption
  simp only [fieldEffect, hentry, hmember]

/-- What becomes of a failure inside a field of a frame, where `levels` more levels of nesting are
left. If it is fatal it is a documented one and ends the frame. Otherwise the object stays as it
was, reading goes on behind the field, and the report says that the field was passed over. -/
theorem Decode.fieldInto_error {levels : Nat} {schema : Schema} (hr : r.Sound)
    {header : FieldHeader}
    (hread : Read.fieldHeader r = .ok header { r with pos := header.payloadStart })
    (hstop : header.stop ≤ r.limit) {entry : FieldDescriptor} {kind : FieldKind}
    (hentry : schema.entry? header.id = some (entry, kind)) {e : CodecError} {s : DecodeState}
    (hfield : field env limits (decodeObject env limits levels) schema.name header entry kind
      ⟨header.window r.bytes, []⟩ = .error e s) (o : Object) (events : List Diagnostic) :
    (e.isFatal ∧ e.Documented limits ∧ ∃ s',
      fieldInto env limits (decodeObject env limits levels) schema r.limit o ⟨r, events⟩ =
        .error e s') ∨
    fieldInto env limits (decodeObject env limits levels) schema r.limit o ⟨r, events⟩ =
      .ok o ⟨{ r with pos := header.stop },
        .fieldSkipped schema.name entry.name entry.id e.message :: (s.events ++ events)⟩ := by
  have hblind := fun inner => decodeObject_blind env limits levels inner
  have hlocal := fun inner => decodeObject_local env limits levels inner
  obtain ⟨n, hn, hstart, hadvance⟩ : ∃ n, n ≤ r.ahead.length ∧ header.payloadStart = r.pos + n ∧
      Read.fieldHeader r = .ok header (r.advance n) := by
    rcases Read.fieldHeader_cases hr with ⟨header', n, -, hn, hstart, hread'⟩ | ⟨c, n, -, hread'⟩
    · have hsame := hread'
      rw [hread] at hsame
      injection hsame with hheader
      subst hheader
      exact ⟨n, hn, hstart, hread'⟩
    · rw [hread'] at hread
      cases hread
  obtain ⟨hwindow, -⟩ := FieldHeader.window_ahead hr hstart hstop
  have hle := FieldHeader.payloadStart_le_stop hr hn hstart
  have heffect := fieldEffect_of_error hentry hfield
  have hinto := @fieldInto_cases env limits (decodeObject env limits levels) r schema hblind hlocal
    hr header n hn hstart hadvance hstop o events
  by_cases hfatal : e.isFatal
  · rw [if_pos hfatal] at heffect
    rw [heffect] at hinto
    obtain ⟨-, k, events', -, hinto⟩ := hinto
    obtain ⟨_, _, inner, r', s', -, -, hr', -, hobject, -⟩ :=
      fieldEffect_error hblind hlocal hwindow heffect
    exact .inl ⟨hfatal, decodeObject_error hr' hobject, _, hinto⟩
  · rw [if_neg hfatal] at heffect
    rw [heffect] at hinto
    have hmove : r.advance (header.stop - r.pos) = { r with pos := header.stop } := by
      simp only [Reader.advance]
      rw [Nat.add_sub_cancel' (by omega)]
    refine .inr (hinto.trans ?_)
    simp only [hmove, FieldEffect.apply, FieldEffect.report, List.reverse_append,
      List.reverse_reverse, List.reverse_singleton, List.cons_append, List.nil_append]

/-- A report that tells of every failure inside one of the fields with these headers, where
`levels` more levels of nesting are left: no failure is fatal, and what the objects in the field
reported stands in the report, with a note right behind it that the field was passed over. -/
def Decode.Absorbs (env : Environment) (limits : Limits) (levels : Nat) (schema : Schema)
    (bytes : Array UInt8) (headers : List FieldHeader) (report : Report) : Prop :=
  ∀ header ∈ headers, ∀ entry kind e s, schema.entry? header.id = some (entry, kind) →
    field env limits (decodeObject env limits levels) schema.name header entry kind
      ⟨header.window bytes, []⟩ = .error e s →
    e.isFatal = false ∧
    (s.events.reverse ++ [.fieldSkipped schema.name entry.name entry.id e.message]) <:+: report

/-- If an object is read, the failures inside the fields of its frame are all in the report.

**Proof sketch.** The report is the fold over the fields of the outline. A field that cannot be
read has an effect, so that its failure is not fatal, and it is what the effect reports. -/
theorem decode_absorbs {o : Object} {report : Report} {r' : Reader} (hr : r.Sound)
    (h : decode env limits type r = .ok (o, report) r') :
    ∃ levels schema frame, limits.maxDepth = levels + 1 ∧ env.schemaOf type = .ok schema ∧
      Read.outline r = .ok frame r' ∧
      Decode.Absorbs env limits levels schema r.bytes frame.headers report := by
  obtain ⟨levels, schema, fresh, frame, fields, hdepth, hschema, -, hout, hheaders, heffects,
    hfold⟩ := decode_ok_cases hr h
  refine ⟨levels, schema, frame, hdepth, hschema, hout, ?_⟩
  intro header hheader entry kind e s hentry hfield
  rw [← hheaders] at hheader
  obtain ⟨⟨_, effect⟩, hmem, rfl⟩ := List.mem_map.mp hheader
  have heffect := Decode.fieldEffect_of_error hentry hfield
  rw [(heffects _ hmem).2] at heffect
  cases hfatal : e.isFatal with
  | true =>
    rw [hfatal] at heffect
    cases heffect
  | false =>
    rw [hfatal] at heffect
    injection heffect with heffect
    have hreport : report = (fields.map fun field => field.2.report).flatten := by
      rw [show report = (FieldEffect.fold fields (fresh, [])).2 from congrArg Prod.snd hfold,
        FieldEffect.report_fold, List.nil_append, List.flatMap_def]
    refine ⟨rfl, ?_⟩
    rw [hreport]
    refine List.infix_of_mem_flatten (List.mem_map.mpr ⟨_, hmem, ?_⟩)
    rw [heffect]
    rfl

/-- The outline of a frame ends where its header says. -/
lemma Read.objectHeader_of_outline {frame : FrameOutline} {r' : Reader}
    (h : outline r = .ok frame r') : ∃ r₁, objectHeader r = .ok frame.stop r₁ := by
  obtain ⟨stop, r₁, hheader, h⟩ := bind_ok h
  obtain ⟨start, r₂, -, h⟩ := bind_ok h
  obtain ⟨headers, r₃, -, h⟩ := bind_ok h
  cases h
  exact ⟨r₁, hheader⟩

/-- Reading an object ends in one of two ways. Either it leaves the reader at the end of the frame,
and the report tells of every failure inside a field, or it fails for a documented reason; and the
reader is left as it was, but for a position between the one before and the limit. In between, at
any level of nesting, a field whose payload cannot be read fails for a documented reason that is
fatal, or it is passed over, and this is reported. -/
theorem decode_documented (env : Environment) (limits : Limits) (type : String) (hr : r.Sound) :
    (match decode env limits type r with
      | .ok (_, report) r' =>
          (∃ stop r₁, Read.objectHeader r = .ok stop r₁ ∧ r.pos ≤ stop ∧ stop ≤ r.limit ∧
            r' = { r with pos := stop }) ∧
          ∃ levels schema frame, limits.maxDepth = levels + 1 ∧ env.schemaOf type = .ok schema ∧
            Read.outline r = .ok frame r' ∧
            Decode.Absorbs env limits levels schema r.bytes frame.headers report
      | .error e r' => e.Documented limits ∧
          ∃ pos, r.pos ≤ pos ∧ pos ≤ r.limit ∧ r' = { r with pos := pos }) ∧
    ∀ (levels : Nat) (schema : Schema) (r₁ : Reader) (header : FieldHeader)
      (entry : FieldDescriptor) (kind : FieldKind) (e : CodecError) (s : DecodeState)
      (o : Object) (events : List Diagnostic), r₁.Sound →
      Read.fieldHeader r₁ = .ok header { r₁ with pos := header.payloadStart } →
      header.stop ≤ r₁.limit → schema.entry? header.id = some (entry, kind) →
      Decode.field env limits (decodeObject env limits levels) schema.name header entry kind
        ⟨header.window r₁.bytes, []⟩ = .error e s →
      (e.isFatal ∧ e.Documented limits ∧ ∃ s',
        Decode.fieldInto env limits (decodeObject env limits levels) schema r₁.limit o
          ⟨r₁, events⟩ = .error e s') ∨
      Decode.fieldInto env limits (decodeObject env limits levels) schema r₁.limit o
        ⟨r₁, events⟩ = .ok o ⟨{ r₁ with pos := header.stop },
          .fieldSkipped schema.name entry.name entry.id e.message :: (s.events ++ events)⟩ := by
  have hlimit := Reader.limit_eq hr
  refine ⟨?_, fun levels schema r₁ header entry kind e s o events hr₁ hread hstop hentry hfield =>
    Decode.fieldInto_error hr₁ hread hstop hentry hfield o events⟩
  cases hdecode : decode env limits type r with
  | ok result r' =>
    obtain ⟨o, report⟩ := result
    refine ⟨?_, decode_absorbs hr hdecode⟩
    obtain ⟨_, _, _, frame, _, -, -, -, hout, -, -, -⟩ := decode_ok_cases hr hdecode
    obtain ⟨r₁, hheader⟩ := Read.objectHeader_of_outline hout
    rcases Read.outline_cases hr with ⟨frame', start, hout', h4, hstart, hstop, -⟩ |
      ⟨c, n, -, hout'⟩
    · rw [hout] at hout'
      cases hout'
      refine ⟨frame.stop, r₁, hheader, by omega, hstop, ?_⟩
      simp only [Reader.advance]
      rw [Nat.add_sub_cancel' (by omega)]
    · rw [hout] at hout'
      cases hout'
  | error e r' =>
    unfold decode at hdecode
    rcases (decodeObject_local env limits limits.maxDepth type).moves hr [] with
      ⟨o, n, events, hn, hrun⟩ | ⟨e', n, events, hn, hrun⟩
    · rw [hrun] at hdecode
      cases hdecode
    · rw [hrun] at hdecode
      cases hdecode
      exact ⟨decodeObject_error hr hrun, r.pos + n, by omega, by omega, rfl⟩

namespace Sample

/-- A field of a point with half a word as its payload. -/
def halfField : Array UInt8 :=
  #[1, 0, 2, 0, 5, 0]

/-- A frame around this field. -/
def halfFrame : Array UInt8 :=
  #[0x45, 0x4F, 6, 0, 1, 0, 2, 0, 5, 0]

/-- What is reported of this field. -/
def halfSkipped : Diagnostic :=
  .fieldSkipped "Point" "x" 1 (CodecError.field (.sizeMismatch 4 2)).message

end Sample

/-- A frame that promises more bytes than may be read, a field that is too short, and a frame around
this field, which is read and tells of it. -/
theorem decode_documented_short :
    ((⟨Sample.pointFrame, 0, 14⟩ : Reader).Sound ∧
      decode Sample.points .small "Point" ⟨Sample.pointFrame, 0, 14⟩ =
        .error (.corruption (.overread 16 14)) ⟨Sample.pointFrame, 4, 14⟩ ∧
      (CodecError.corruption (.overread 16 14)).Documented .small) ∧
    ((Reader.ofBytes Sample.halfField).Sound ∧
      Read.fieldHeader (.ofBytes Sample.halfField) =
        .ok ⟨0x20001, 1, 2, .fixed, 4⟩ ⟨Sample.halfField, 4, 6⟩ ∧
      Decode.fieldInto Sample.points .small (decodeObject Sample.points .small 7)
        Sample.pointSchema 6 Sample.pointRead ⟨.ofBytes Sample.halfField, []⟩ =
        .ok Sample.pointRead ⟨⟨Sample.halfField, 6, 6⟩, [Sample.halfSkipped]⟩) ∧
    ∃ o report, decode Sample.points .small "Point" (.ofBytes Sample.halfFrame) =
        .ok (o, report) ⟨Sample.halfFrame, 10, 10⟩ ∧ [Sample.halfSkipped] <:+: report := by
  have hsound : (⟨Sample.pointFrame, 0, 14⟩ : Reader).Sound := ⟨by decide, by decide, by decide⟩
  have hrun : decode Sample.points .small "Point" ⟨Sample.pointFrame, 0, 14⟩ =
      .error (.corruption (.overread 16 14)) ⟨Sample.pointFrame, 4, 14⟩ := rfl
  have hhalf : (Reader.ofBytes Sample.halfField).Sound := Reader.sound_ofBytes (by decide)
  have hread : Read.fieldHeader (.ofBytes Sample.halfField) =
      .ok ⟨0x20001, 1, 2, .fixed, 4⟩ ⟨Sample.halfField, 4, 6⟩ := rfl
  obtain ⟨hend, hfield⟩ := decode_documented Sample.points .small "Point" hsound
  rw [hrun] at hend
  have hinto := hfield 7 Sample.pointSchema (.ofBytes Sample.halfField)
    ⟨0x20001, 1, 2, .fixed, 4⟩ ⟨1, "x", .int, .int, none, {}⟩ (.value (.plain .int) false)
    (.field (.sizeMismatch 4 2)) ⟨⟨Sample.halfField, 4, 6⟩, []⟩ Sample.pointRead [] hhalf hread
    (by decide) rfl rfl
  refine ⟨⟨hsound, hrun, hend.1⟩, ⟨hhalf, hread, ?_⟩, ?_⟩
  · rcases hinto with ⟨hfatal, -⟩ | hskipped
    · cases hfatal
    · exact hskipped
  · have hdecode : decode Sample.points .small "Point" (.ofBytes Sample.halfFrame) =
        .ok (⟨[(1, .value (some (.int 0))), (2, .value (some (.int 0)))]⟩, [Sample.halfSkipped])
          ⟨Sample.halfFrame, 10, 10⟩ := rfl
    obtain ⟨hgood, -⟩ := decode_documented Sample.points .small "Point"
      (Reader.sound_ofBytes (show Sample.halfFrame.size ≤ maxBuffer by decide))
    rw [hdecode] at hgood
    obtain ⟨-, levels, schema, frame, hlevels, hschema, hframe, habsorbs⟩ := hgood
    cases hlevels
    cases hschema
    cases hframe
    exact ⟨_, _, hdecode, (habsorbs ⟨0x20001, 1, 2, .fixed, 8⟩ (by decide)
      ⟨1, "x", .int, .int, none, {}⟩ (.value (.plain .int) false) (.field (.sizeMismatch 4 2))
      ⟨⟨Sample.halfFrame, 8, 10⟩, []⟩ rfl rfl).2⟩

end TaggedParcel
