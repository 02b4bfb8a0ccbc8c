import TaggedParcel.Proofs.Object.Locality
import TaggedParcel.Sample.Records

set_option relaxedAutoImplicit false
set_option autoImplicit false

/-!
# Reading an object is a fold

The object and the report that reading answers are those of a left fold over the fields of the
frame, from the fresh instance and an empty report. Each field contributes its effect, and
nothing carries over from one field to the next but the object and the report.

## Main definitions

* `FieldEffect.fold` — the fold.
* `FieldEffect.lastMember?` — the last member that fields with an id bring.
* `Decode.Outcome` — the three things that can become of a field.

## Main results

* `Decode.fieldEffect_outcome` — what becomes of a field is one of the three.
* `Decode.fieldsInto_cases`, `Decode.objectFrame_cases` — a frame is read by the fold, is corrupt
  where its outline is, or ends in a fatal failure.
* `decode_eq_fold` — reading an object is a fold.
-/

namespace TaggedParcel

/-! ## Effects one after another -/

/-- The member of an object after another one was replaced. -/
lemma Object.get?_set (o : Object) (id k : UInt16) (m : Member) :
    (o.set id m).get? k = if k = id then (o.get? k).map fun _ => m else o.get? k := by
  obtain ⟨members⟩ := o
  simp only [Object.set, Object.get?]
  induction members with
  | nil => simp
  | cons entry rest ih =>
    obtain ⟨key, member⟩ := entry
    rw [List.map_cons]
    by_cases hkey : key = id
    · rw [if_pos hkey]
      by_cases hk : k = id
      · simp [hk, hkey]
      · simp only [List.lookup_cons, hkey, beq_eq_false_iff_ne.mpr hk]
        exact ih
    · rw [if_neg hkey]
      by_cases hk : k = key
      · simp [hk, hkey]
      · simp only [List.lookup_cons, beq_eq_false_iff_ne.mpr hk]
        exact ih

namespace FieldEffect

/-- An object and a report after fields with certain effects. -/
def fold (fields : List (FieldHeader × FieldEffect)) (start : Object × Report) : Object × Report :=
  fields.foldl
    (fun acc field => (field.2.apply field.1.id acc.1, acc.2 ++ field.2.report)) start

/-- The last member that fields with an id bring. -/
def lastMember? (id : UInt16) : List (FieldHeader × FieldEffect) → Option Member
  | [] => none
  | field :: rest => (lastMember? id rest).or (if field.1.id = id then field.2.member? else none)

/-- After a field, its own member may be replaced, and no other. -/
lemma get?_apply (effect : FieldEffect) (id k : UInt16) (o : Object) :
    (effect.apply id o).get? k =
      (o.get? k).map fun m => (if id = k then effect.member? else none).getD m := by
  unfold apply
  cases effect.member? with
  | none => simp
  | some member =>
    rw [Object.get?_set]
    by_cases h : k = id
    · simp [h]
    · rw [if_neg h, if_neg (Ne.symm h)]
      simp

/-- Of the members that fields with one id bring, the last one stands. -/
theorem get?_fold (fields : List (FieldHeader × FieldEffect)) (start : Object × Report)
    (k : UInt16) :
    (fold fields start).1.get? k =
      (start.1.get? k).map fun m => (lastMember? k fields).getD m := by
  induction fields generalizing start with
  | nil => simp [fold, lastMember?]
  | cons field rest ih =>
    have hfold : fold (field :: rest) start =
        fold rest (field.2.apply field.1.id start.1, start.2 ++ field.2.report) := rfl
    rw [hfold, ih, get?_apply, Option.map_map]
    congr 1
    funext m
    simp only [Function.comp, lastMember?]
    cases lastMember? k rest <;> rfl

/-- The report of a fold is what was reported before, and behind it what the fields report. -/
theorem report_fold (fields : List (FieldHeader × FieldEffect)) (start : Object × Report) :
    (fold fields start).2 = start.2 ++ fields.flatMap fun field => field.2.report := by
  induction fields generalizing start with
  | nil => simp [fold]
  | cons field rest ih =>
    have hfold : fold (field :: rest) start =
        fold rest (field.2.apply field.1.id start.1, start.2 ++ field.2.report) := rfl
    rw [hfold, ih, List.flatMap_cons, List.append_assoc]

end FieldEffect

namespace Decode

variable {env : Environment} {limits : Limits} {nested : ObjectReader} {schema : Schema}

/-- What can become of a field of a frame, with `nested` for the objects in its payload. -/
inductive Outcome (env : Environment) (limits : Limits) (nested : ObjectReader) (schema : Schema)
    (bytes : Array UInt8) (header : FieldHeader) : FieldEffect → Prop where
  /-- A field that the type does not have is reported, with its size. -/
  | unknown (hentry : schema.entry? header.id = none) :
    Outcome env limits nested schema bytes header
      ⟨none, [], [.unknownField schema.name header.id header.size]⟩
  /-- A payload that is read replaces the member of the field. What is reported comes from the
  objects in the payload, and after them perhaps from the version gate. -/
  | replaced {entry : FieldDescriptor} {kind : FieldKind} {m : Member} {s : DecodeState}
    {gates : Report} (hentry : schema.entry? header.id = some (entry, kind))
    (hrun : member env limits nested schema.name header entry kind ⟨header.window bytes, []⟩ =
      .ok m s)
    (htold : Told nested (kind.objectType? = some ·) bytes header.stop header.payloadStart
      s.reader.pos s.events.reverse)
    (hgates : gates.length ≤ 1)
    (hgate : ∀ event ∈ gates,
      ∃ gate found, event = .versionGate schema.name entry.name gate found) :
    Outcome env limits nested schema bytes header ⟨some m, s.events.reverse, gates⟩
  /-- A payload that cannot be read replaces nothing. What is reported comes from the objects in
  the payload, and after them it is said that the field was passed over. -/
  | skipped {entry : FieldDescriptor} {kind : FieldKind} {e : CodecError} {s : DecodeState}
    (hentry : schema.entry? header.id = some (entry, kind))
    (hrun : member env limits nested schema.name header entry kind ⟨header.window bytes, []⟩ =
      .error e s)
    (hfatal : e.isFatal = false)
    (htold : Told nested (kind.objectType? = some ·) bytes header.stop header.payloadStart
      s.reader.pos s.events.reverse) :
    Outcome env limits nested schema bytes header
      ⟨none, s.events.reverse, [.fieldSkipped schema.name entry.name header.id e.message]⟩

/-- Unless a field fails fatally, one of three things becomes of it. -/
theorem fieldEffect_outcome (hblind : ∀ inner, Blind (nested inner))
    (hlocal : ∀ inner, Local (nested inner)) {bytes : Array UInt8} {header : FieldHeader}
    (hwindow : (header.window bytes).Sound) {effect : FieldEffect}
    (h : fieldEffect env limits nested schema bytes header = .ok effect) :
    Outcome env limits nested schema bytes header effect := by
  unfold fieldEffect at h
  cases hentry : schema.entry? header.id with
  | none =>
    rw [hentry] at h
    cases h
    exact .unknown hentry
  | some registered =>
    obtain ⟨entry, kind⟩ := registered
    have htold := (member_assembled env limits nested schema.name header entry kind).told
      (fun inner _ => hblind inner) (fun inner _ => hlocal inner) hwindow
    rw [hentry] at h
    dsimp only at h
    cases hrun : member env limits nested schema.name header entry kind
      ⟨header.window bytes, []⟩ with
    | ok m s =>
      rw [hrun] at h
      cases h
      rw [report, final_ok hrun] at htold
      exact .replaced hentry hrun htold (length_gateReport_le _ _ _ _)
        fun event hevent => eq_versionGate_of_mem_gateReport hevent
    | error e s =>
      rw [hrun] at h
      dsimp only at h
      rw [report, final_error hrun] at htold
      by_cases hfatal : e.isFatal
      · rw [if_pos hfatal] at h
        cases h
      · rw [if_neg hfatal] at h
        cases h
        rw [entry?_id hentry]
        exact .skipped hentry hrun (Bool.eq_false_iff.mpr hfatal) htold

/-- A field fails fatally only if an object in its payload does. -/
lemma fieldEffect_error (hblind : ∀ inner, Blind (nested inner))
    (hlocal : ∀ inner, Local (nested inner)) {bytes : Array UInt8} {header : FieldHeader}
    (hwindow : (header.window bytes).Sound) {e : CodecError}
    (h : fieldEffect env limits nested schema bytes header = .error e) :
    ∃ entry kind inner r s, schema.entry? header.id = some (entry, kind) ∧
      kind.objectType? = some inner ∧ r.Sound ∧
      r.ahead.length ≤ (header.window bytes).ahead.length ∧
      nested inner ⟨r, []⟩ = .error e s ∧ e.isFatal := by
  unfold fieldEffect at h
  cases hentry : schema.entry? header.id with
  | none =>
    rw [hentry] at h
    cases h
  | some registered =>
    obtain ⟨entry, kind⟩ := registered
    rw [hentry] at h
    dsimp only at h
    cases hrun : member env limits nested schema.name header entry kind
      ⟨header.window bytes, []⟩ with
    | ok m s =>
      rw [hrun] at h
      cases h
    | error e' s =>
      rw [hrun] at h
      dsimp only at h
      by_cases hfatal : e'.isFatal
      · rw [if_pos hfatal] at h
        cases h
        obtain ⟨inner, r, s', hinner, hr, hlength, hobject⟩ :=
          (member_assembled env limits nested schema.name header entry kind).blames
            (fun inner _ => hblind inner) (fun inner _ => hlocal inner) hwindow hrun hfatal
        exact ⟨entry, kind, inner, r, s', rfl, hinner, hr, hlength, hobject, hfatal⟩
      · rw [if_neg hfatal] at h
        cases h

variable {r : Reader}

/-- The fields up to the limit in force are folded, or they are corrupt where their headers are,
or one of them fails fatally. -/
theorem fieldsInto_cases (env : Environment) (limits : Limits) (schema : Schema)
    (hblind : ∀ inner, Blind (nested inner))
    (hlocal : ∀ inner, Local (nested inner)) (fuel : Nat) (hr : r.Sound) (o : Object)
    (reported : Report) :
    (∃ fields r', Read.fieldHeaders r.limit fuel r = .ok (fields.map Prod.fst) r' ∧
      (∀ field ∈ fields, (field.1.window r.bytes).Sound ∧
        fieldEffect env limits nested schema r.bytes field.1 = .ok field.2) ∧
      fieldsInto env limits nested schema r.limit fuel o ⟨r, reported.reverse⟩ =
        .ok (FieldEffect.fold fields (o, reported)).1
          ⟨r', (FieldEffect.fold fields (o, reported)).2.reverse⟩) ∨
    (∃ c, (∃ r', Read.fieldHeaders r.limit fuel r = .error (.corruption c) r') ∧
      ∃ s, fieldsInto env limits nested schema r.limit fuel o ⟨r, reported.reverse⟩ =
        .error (.corruption c) s) ∨
    ∃ header e, (header.window r.bytes).Sound ∧
      (header.window r.bytes).ahead.length < r.ahead.length ∧
      fieldEffect env limits nested schema r.bytes header = .error e ∧ e.isFatal ∧
      ∃ s, fieldsInto env limits nested schema r.limit fuel o ⟨r, reported.reverse⟩ =
        .error e s := by
  induction fuel generalizing r o reported with
  | zero => exact .inl ⟨[], r, rfl, by simp, rfl⟩
  | succ fuel ih =>
    have hlimit := Reader.limit_eq hr
    by_cases hpos : r.pos < r.limit
    · rw [fieldsInto_step env limits nested schema fuel o reported.reverse hpos]
      rcases Read.fieldHeaders_step fuel hr hpos with
        ⟨header, n, h4, hn, hstart, hread, ⟨hstop, hstep⟩ | ⟨hstop, hstep⟩⟩ |
        ⟨c, n, hn, hread, hstep⟩
      · obtain ⟨hwindow, hpayload⟩ := FieldHeader.window_ahead hr hstart hstop
        have hle := FieldHeader.payloadStart_le_stop hr hn hstart
        have hfield : header.stop - r.pos ≤ r.ahead.length := by omega
        have hinto := @fieldInto_cases env limits nested r schema hblind hlocal hr header n hn
          hstart hread hstop o reported.reverse
        cases heffect : fieldEffect env limits nested schema r.bytes header with
        | ok effect =>
          rw [heffect] at hinto
          rw [hinto, hstep, ← List.reverse_append]
          -- the fields behind this one are folded from where this one led
          rcases ih (hr.advance hfield) (effect.apply header.id o) (reported ++ effect.report) with
            ⟨fields, r', hheaders, heffects, hinto⟩ | ⟨c, ⟨r', hheaders⟩, s, hinto⟩ |
            ⟨header', e, hwindow', hlength, heffect', hfatal, s, hinto⟩
          · rw [Reader.advance_limit] at hheaders hinto
            refine .inl ⟨(header, effect) :: fields, r', ?_, ?_, ?_⟩
            · rw [hheaders]
              rfl
            · intro field hfield
              rcases List.mem_cons.mp hfield with rfl | hfield
              · exact ⟨hwindow, heffect⟩
              · exact heffects field hfield
            · dsimp only
              rw [hinto]
              rfl
          · rw [Reader.advance_limit] at hheaders hinto
            rw [hheaders]
            exact .inr (.inl ⟨c, ⟨r', rfl⟩, s, hinto⟩)
          · rw [Reader.advance_limit] at hinto
            rw [Reader.ahead_advance, List.length_drop] at hlength
            exact .inr (.inr ⟨header', e, hwindow', by
              rw [Reader.advance_bytes] at hlength
              omega, heffect', hfatal, s, hinto⟩)
        | error e =>
          rw [heffect] at hinto
          obtain ⟨hfatal, k, events, -, hinto⟩ := hinto
          refine .inr (.inr ⟨header, e, hwindow, ?_, heffect, hfatal, _, by rw [hinto]⟩)
          have hsize := (FieldHeader.stop_le_iff hr hstart).mp hstop
          rw [hpayload, List.length_take, List.length_drop]
          omega
      · rw [fieldInto_overread hread hstop]
        exact .inr (.inl ⟨_, ⟨_, hstep⟩, _, rfl⟩)
      · rw [fieldInto_corrupt hread]
        exact .inr (.inl ⟨c, ⟨_, hstep⟩, _, rfl⟩)
    · have hend : r.pos = r.limit := by omega
      rw [fieldsInto_end env limits nested schema _ o _ hend, Read.fieldHeaders_end _ hend]
      exact .inl ⟨[], r, rfl, by simp, rfl⟩

/-- A frame is read by a fold over the fields of its outline, or it is corrupt where the outline
is, or a field fails fatally, or the frame is too large. -/
theorem objectFrame_cases (env : Environment) (limits : Limits) (schema : Schema)
    (hblind : ∀ inner, Blind (nested inner)) (hlocal : ∀ inner, Local (nested inner))
    (hr : r.Sound) (fresh : Object) :
    (∃ frame fields, Read.outline r = .ok frame (r.advance (frame.stop - r.pos)) ∧
      fields.map Prod.fst = frame.headers ∧
      (∀ field ∈ fields, (field.1.window r.bytes).Sound ∧
        fieldEffect env limits nested schema r.bytes field.1 = .ok field.2) ∧
      objectFrame env limits nested schema fresh ⟨r, []⟩ =
        .ok (FieldEffect.fold fields (fresh, [])).1
          ⟨r.advance (frame.stop - r.pos), (FieldEffect.fold fields (fresh, [])).2.reverse⟩) ∨
    (∃ c, (∃ r', Read.outline r = .error (.corruption c) r') ∧
      ∃ s, objectFrame env limits nested schema fresh ⟨r, []⟩ = .error (.corruption c) s) ∨
    (∃ header e, (header.window r.bytes).Sound ∧
      (header.window r.bytes).ahead.length < r.ahead.length ∧
      fieldEffect env limits nested schema r.bytes header = .error e ∧ e.isFatal ∧
      ∃ s, objectFrame env limits nested schema fresh ⟨r, []⟩ = .error e s) ∨
    ∃ size, limits.maxObjectBytes < size ∧ size ≤ r.ahead.length ∧
      ∃ s, objectFrame env limits nested schema fresh ⟨r, []⟩ =
        .error (.field (.limit ⟨.objectBytes, limits.maxObjectBytes, size⟩)) s := by
  rcases Read.objectHeader_cases hr with ⟨n, size, h4, hsize, hread⟩ | ⟨c, n, hn, hread⟩
  · rw [objectFrame_apply hr hsize hread, Read.outline_eq hr hsize hread]
    by_cases hlarge : size > limits.maxObjectBytes
    · rw [if_pos hlarge]
      exact .inr (.inr (.inr ⟨size, hlarge, by omega, _, rfl⟩))
    · rw [if_neg hlarge]
      have hadvance := hr.advance (show n ≤ r.ahead.length by omega)
      have hroom : size ≤ (r.advance n).ahead.length := by
        rw [Reader.ahead_advance, List.length_drop]
        omega
      have hstop : r.advance (r.pos + n + size - r.pos) = (r.advance n).advance size := by
        rw [Reader.advance_advance]
        congr 1
        omega
      rw [framed_of_le (fields_local env limits hblind hlocal schema size fresh) hadvance hroom]
      have hfuel := Read.fieldHeaders_cases size (hadvance.narrow hroom) (by
        rw [Reader.ahead_narrow hadvance hroom, List.length_take]
        omega)
      rcases fieldsInto_cases env limits schema hblind hlocal size (hadvance.narrow hroom) fresh []
        with ⟨fields, r', hheaders, heffects, hinto⟩ | ⟨c, ⟨r', hheaders⟩, s, hinto⟩ |
        ⟨header, e, hwindow, hlength, heffect, hfatal, s, hinto⟩
      · have hend : r' = ((r.advance n).narrow size).advance size := by
          rcases hfuel with ⟨headers, hread', -⟩ | ⟨c, k, -, hread'⟩
          · rw [hheaders, Reader.ahead_narrow hadvance hroom, List.length_take,
              Nat.min_eq_left hroom] at hread'
            injection hread'
          · rw [hheaders] at hread'
            cases hread'
        rw [Reader.narrow_limit, Reader.advance_pos] at hheaders
        refine .inl ⟨⟨r.pos + n + size, fields.map Prod.fst⟩, fields, ?_, rfl, heffects, ?_⟩
        · rw [hheaders, hstop, hend]
          rfl
        · have hfields : Decode.fields env limits nested schema size fresh
              ⟨(r.advance n).narrow size, []⟩ = _ := hinto
          rw [hfields, hstop]
      · rw [Reader.narrow_limit, Reader.advance_pos] at hheaders
        have hfields : Decode.fields env limits nested schema size fresh
            ⟨(r.advance n).narrow size, []⟩ = _ := hinto
        rw [hheaders, hfields]
        exact .inr (.inl ⟨c, ⟨_, rfl⟩, _, rfl⟩)
      · have hfields : Decode.fields env limits nested schema size fresh
            ⟨(r.advance n).narrow size, []⟩ = _ := hinto
        have hshort : (header.window r.bytes).ahead.length < r.ahead.length := by
          have hnarrow : (header.window r.bytes).ahead.length <
              ((r.advance n).narrow size).ahead.length := hlength
          rw [Reader.ahead_narrow hadvance hroom, List.length_take] at hnarrow
          omega
        rw [hfields]
        exact .inr (.inr (.inl ⟨header, e, hwindow, hshort, heffect, hfatal, _, rfl⟩))
  · refine .inr (.inl ⟨c, ⟨r.advance n, ?_⟩, ⟨r.advance n, []⟩, ?_⟩)
    · unfold Read.outline
      rw [bind_apply, hread]
    · unfold objectFrame
      rw [bind_apply, frame_apply, hread]
      rfl

/-- A type is described and has a fresh instance if its objects can be read. -/
lemma described_bind_ok {α β : Type} {result : Except SchemaError α} {next : α → Decode β}
    {s s' : DecodeState} {b : β} (h : (described result >>= next) s = .ok b s') :
    ∃ a, result = .ok a ∧ next a s = .ok b s' := by
  cases result with
  | ok a => exact ⟨a, rfl, h⟩
  | error e => cases h

end Decode

/-- With a level left, an object of a described type is the frame read into the fresh instance. -/
lemma decodeObject_apply {env : Environment} (limits : Limits) (levels : Nat) {type : String}
    {schema : Schema} {fresh : Object} (hschema : env.schemaOf type = .ok schema)
    (hfresh : schema.construct = .ok fresh) (s : DecodeState) :
    decodeObject env limits (levels + 1) type s =
      Decode.objectFrame env limits (decodeObject env limits levels) schema fresh s := by
  show (Decode.described (env.schemaOf type) >>= _) s = _
  rw [hschema]
  show (Decode.described schema.construct >>= _) s = _
  rw [hfresh]
  rfl

/-- With a level left, what is read at a position is the frame read into the fresh instance. -/
lemma decode_apply {env : Environment} {limits : Limits} {levels : Nat} {type : String}
    {schema : Schema} {fresh : Object} (hdepth : limits.maxDepth = levels + 1)
    (hschema : env.schemaOf type = .ok schema) (hfresh : schema.construct = .ok fresh)
    (r : Reader) :
    decode env limits type r =
      match Decode.objectFrame env limits (decodeObject env limits levels) schema fresh
        ⟨r, []⟩ with
      | .ok o s => .ok (o, s.events.reverse) s.reader
      | .error e s => .error e s.reader := by
  show (match decodeObject env limits limits.maxDepth type ⟨r, []⟩ with
    | .ok o s => EStateM.Result.ok (o, s.events.reverse) s.reader
    | .error e s => .error e s.reader) = _
  rw [hdepth, decodeObject_apply limits levels hschema hfresh]

/-- Where an object is read, its type is described and has a fresh instance, and its frame is
read into the instance. -/
lemma decode_ok_frame {env : Environment} {limits : Limits} {type : String} {r r' : Reader}
    {o : Object} {report : Report} (h : decode env limits type r = .ok (o, report) r') :
    ∃ levels schema fresh s, limits.maxDepth = levels + 1 ∧
      env.schemaOf type = .ok schema ∧ schema.construct = .ok fresh ∧
      Decode.objectFrame env limits (decodeObject env limits levels) schema fresh ⟨r, []⟩ =
        .ok o s ∧ report = s.events.reverse ∧ r' = s.reader := by
  unfold decode at h
  cases hrun : decodeObject env limits limits.maxDepth type ⟨r, []⟩ with
  | error e s =>
    rw [hrun] at h
    cases h
  | ok o' s =>
    rw [hrun] at h
    cases h
    cases hdepth : limits.maxDepth with
    | zero =>
      rw [hdepth] at hrun
      obtain ⟨schema, -, hrun⟩ := Decode.described_bind_ok hrun
      obtain ⟨fresh, -, hrun⟩ := Decode.described_bind_ok hrun
      cases hrun
    | succ levels =>
      rw [hdepth] at hrun
      obtain ⟨schema, hschema, hrun⟩ := Decode.described_bind_ok hrun
      obtain ⟨fresh, hfresh, hrun⟩ := Decode.described_bind_ok hrun
      exact ⟨levels, schema, fresh, s, rfl, hschema, hfresh, hrun, rfl, rfl⟩

/-- Where an object is read, the object and the report are those of the fold over the fields of
the outline, from the fresh instance of its type. -/
theorem decode_ok_cases {env : Environment} {limits : Limits} {type : String} {r r' : Reader}
    {o : Object} {report : Report} (hr : r.Sound)
    (h : decode env limits type r = .ok (o, report) r') :
    ∃ levels schema fresh frame fields, limits.maxDepth = levels + 1 ∧
      env.schemaOf type = .ok schema ∧ schema.construct = .ok fresh ∧
      Read.outline r = .ok frame r' ∧ fields.map Prod.fst = frame.headers ∧
      (∀ field ∈ fields, (field.1.window r.bytes).Sound ∧
        Decode.fieldEffect env limits (decodeObject env limits levels) schema r.bytes field.1 =
          .ok field.2) ∧
      (o, report) = FieldEffect.fold fields (fresh, []) := by
  obtain ⟨levels, schema, fresh, s, hdepth, hschema, hfresh, hrun, rfl, rfl⟩ := decode_ok_frame h
  rcases Decode.objectFrame_cases env limits schema
    (fun inner => decodeObject_blind env limits levels inner)
    (fun inner => decodeObject_local env limits levels inner) hr fresh with
    ⟨frame, fields, hout, hheaders, heffects, hframe⟩ | ⟨c, -, s, hframe⟩ |
    ⟨header, e, -, -, -, -, s, hframe⟩ | ⟨size, -, -, s, hframe⟩
  · rw [hframe] at hrun
    cases hrun
    refine ⟨levels, schema, fresh, frame, fields, hdepth, hschema, hfresh, hout, hheaders,
      heffects, ?_⟩
    rw [List.reverse_reverse]
  · rw [hframe] at hrun
    cases hrun
  · rw [hframe] at hrun
    cases hrun
  · rw [hframe] at hrun
    cases hrun

/-- Reading an object is a left fold over the fields of its frame, in the order of the bytes,
from the fresh instance and an empty report.

The headers of the fields fill the frame, so that each field starts where the one before it is
declared to end, and reading ends where the frame does. What becomes of a field is one of three
things. It depends on its own payload alone, and changes no member but its own, so that the
last field with an id whose payload is read decides what the member is. -/
theorem decode_eq_fold {env : Environment} {limits : Limits} {type : String} {r r' : Reader}
    {o : Object} {report : Report} (hr : r.Sound)
    (h : decode env limits type r = .ok (o, report) r') :
    ∃ levels schema fresh frame start fields, limits.maxDepth = levels + 1 ∧
      env.schemaOf type = .ok schema ∧ schema.construct = .ok fresh ∧
      Read.outline r = .ok frame r' ∧ r' = { r with pos := frame.stop } ∧
      FieldHeader.Tile r.bytes frame.stop start frame.headers ∧
      fields.map Prod.fst = frame.headers ∧
      (∀ field ∈ fields, Decode.Outcome env limits (decodeObject env limits levels) schema r.bytes
        field.1 field.2) ∧
      (o, report) = fields.foldl
        (fun acc field => (field.2.apply field.1.id acc.1, acc.2 ++ field.2.report)) (fresh, []) ∧
      ∀ id, o.get? id =
        (fresh.get? id).map fun m => (FieldEffect.lastMember? id fields).getD m := by
  obtain ⟨levels, schema, fresh, frame, fields, hdepth, hschema, hfresh, hout, hheaders, heffects,
    hfold⟩ := decode_ok_cases hr h
  rcases Read.outline_cases hr with ⟨frame', start, hout', h4, hstart, hstop, htile⟩ |
    ⟨c, n, -, hout'⟩
  · rw [hout] at hout'
    cases hout'
    refine ⟨levels, schema, fresh, frame, start, fields, hdepth, hschema, hfresh, hout, ?_,
      htile, hheaders, ?_, hfold, ?_⟩
    · simp only [Reader.advance]
      rw [Nat.add_sub_cancel' (by omega)]
    · intro field hfield
      obtain ⟨hwindow, heffect⟩ := heffects field hfield
      exact Decode.fieldEffect_outcome (fun inner => decodeObject_blind env limits levels inner)
        (fun inner => decodeObject_local env limits levels inner) hwindow heffect
    · intro id
      rw [show o = (FieldEffect.fold fields (fresh, [])).1 from congrArg Prod.fst hfold]
      exact FieldEffect.get?_fold fields (fresh, []) id
  · rw [hout] at hout'
    cases hout'

namespace Sample

/-- The types that the frames below are read as. -/
def points : Environment :=
  .ofTypes [point "", pointV2 ""] .empty

/-- The schema of a point. -/
def pointSchema : Schema :=
  ⟨⟨"Point", [⟨1, "x", .int, .int, none, {}⟩, ⟨2, "y", .int, .int, none, {}⟩], true⟩,
    [(1, .value (.plain .int) false), (2, .value (.plain .int) false)],
    some ⟨[(1, .value (some (.int 0))), (2, .value (some (.int 0)))]⟩⟩

/-- A frame with a field of a point, and one that a point does not have. -/
def pointFrame : Array UInt8 :=
  #[0x45, 0x4F, 12, 0, 1, 0, 4, 0, 5, 0, 0, 0, 7, 0, 0, 0]

/-- The point in the frame. -/
def pointRead : Object :=
  ⟨[(1, .value (some (.int 5))), (2, .value (some (.int 0)))]⟩

end Sample

/-- The frame of a point is folded over its two fields, one of which is unknown. -/
theorem decode_eq_fold_point :
    decode Sample.points .small "Point" (.ofBytes Sample.pointFrame) =
      .ok (Sample.pointRead, [.unknownField "Point" 7 0]) ⟨Sample.pointFrame, 16, 16⟩ ∧
    ∃ fresh fields, fields.map (fun field => field.1.id) = [1, 7] ∧
      (Sample.pointRead, [.unknownField "Point" 7 0]) = FieldEffect.fold fields (fresh, []) := by
  have hread : decode Sample.points .small "Point" (.ofBytes Sample.pointFrame) =
      .ok (Sample.pointRead, [.unknownField "Point" 7 0]) ⟨Sample.pointFrame, 16, 16⟩ := rfl
  obtain ⟨_, _, fresh, frame, _, fields, -, -, -, hout, -, -, hheaders, -, hfold, -⟩ :=
    decode_eq_fold (Reader.sound_ofBytes (by decide)) hread
  refine ⟨hread, fresh, fields, ?_, hfold⟩
  have hids : frame.headers.map FieldHeader.id = [1, 7] := by
    have houtline : Read.outline (.ofBytes Sample.pointFrame) = .ok
        ⟨16, [⟨0x40001, 1, 4, .fixed, 8⟩, ⟨7, 7, 0, .fixed, 16⟩]⟩
        ⟨Sample.pointFrame, 16, 16⟩ := rfl
    rw [houtline] at hout
    cases hout
    rfl
  rw [← hheaders, List.map_map] at hids
  exact hids

end TaggedParcel
