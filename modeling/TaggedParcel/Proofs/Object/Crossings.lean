import TaggedParcel.Proofs.Object.FieldRoundtrip
import TaggedParcel.Proofs.Object.Gates

set_option relaxedAutoImplicit false
set_option autoImplicit false

/-!
# What version gates tell

Which integers are above the gates of their fields can be told from the bytes alone: the payload
of a field holds an integer just if it is as wide as the integers of the field are, and the gate is
crossed just if that integer is above it. So the gates of a type tell one thing for each such field
of a frame, in the order of the bytes.

## Main definitions

* `PlainKind.integer?` — the integer in a payload.
* `Schema.crossing?` — what the gate of a field tells, from the bytes.
* `Read.ungated` — what comes of reading an object, without what version gates tell.

## Main results

* `Decode.own_gates` — what a field tells of its gate.
* `decode_ungated` — reading an object of a type without gates.
* `decode_gates` — gates only observe, and what they tell.
-/

namespace TaggedParcel

/-- The bytes of the payload of a field. -/
def FieldHeader.payload (bytes : Array UInt8) (header : FieldHeader) : List UInt8 :=
  (header.window bytes).ahead

/-- The integer that a payload holds, if the kind is one of the integers and the payload is as
wide as these are. Bytes and shorts are narrowed from whole words. -/
def PlainKind.integer? (payload : List UInt8) : PlainKind → Option Int64
  | .byte =>
    if payload.length = 4 then
      some (Int32.ofNat (LittleEndian.value payload)).toInt8.toInt64
    else none
  | .short =>
    if payload.length = 4 then
      some (Int32.ofNat (LittleEndian.value payload)).toInt16.toInt64
    else none
  | .int =>
    if payload.length = 4 then some (Int32.ofNat (LittleEndian.value payload)).toInt64 else none
  | .long =>
    if payload.length = 8 then some (Int64.ofNat (LittleEndian.value payload)) else none
  | _ => none

/-- What the version gate of a field tells of a payload, if the field has a gate and the payload is
an integer above it. -/
def FieldDescriptor.crossing? (type : String) (entry : FieldDescriptor) (payload : List UInt8) :
    FieldKind → Option Diagnostic
  | .value (.plain kind) _ =>
    (kind.integer? payload).bind fun found =>
      (entry.options.versionGate.filter fun gate => gate < found).map fun gate =>
        .versionGate type entry.name gate found
  | _ => none

/-- What a version gate tells of a field of a frame. -/
def Schema.crossing? (s : Schema) (bytes : Array UInt8) (header : FieldHeader) :
    Option Diagnostic :=
  (s.entry? header.id).bind fun entry =>
    entry.1.crossing? s.name (header.payload bytes) entry.2

/-! ## Integers in payloads -/

/-- A payload inside its buffer has as many bytes as the header says. -/
lemma FieldHeader.length_payload {bytes : Array UInt8} {header : FieldHeader}
    (h : (header.window bytes).Sound) : (header.payload bytes).length = header.size := by
  have hlimit := Nat.le_trans h.limit_le h.size_le
  have hpos := h.pos_le
  rw [payload, Reader.length_ahead h]
  simp only [window, stop, maxOffset, maxBuffer, UInt64.size] at *
  omega

namespace PlainKind

/-- The layout of a kind is an integer just if the kind is. -/
lemma integer?_of_not_isInteger {kind : PlainKind} {options : FieldOptions} {layout : Semantic}
    (hlayout : kind.shape.resolve options = .ok layout) (hinteger : ¬ layout.isInteger)
    (payload : List UInt8) : kind.integer? payload = none := by
  cases kind with
  | byte | short | int | long =>
    cases hlayout
    exact absurd rfl hinteger
  | _ => rfl

/-- The integer in a payload of the right width is the one that is read from it. -/
lemma integer?_cases {kind : PlainKind} {options : FieldOptions} {layout : Semantic}
    (hlayout : kind.shape.resolve options = .ok layout) (hinteger : layout.isInteger) :
    kind.ofNull? = none ∧ ∃ width, layout.fixedSize = some width ∧
      (∀ payload : List UInt8, payload.length ≠ width → kind.integer? payload = none) ∧
      ∀ payload : List UInt8, payload.length = width → ∃ v : FieldValue,
        kind.integer? payload = v.gateNumber? ∧
        ∀ limits, Read.Parses (kind.read limits) payload (some v) := by
  have hword : ∀ payload : List UInt8, payload.length = 4 →
      Read.Parses (liftM Read.i32 : Read FieldError Int32) payload
        (Int32.ofNat (LittleEndian.value payload)) := by
    intro payload h
    have hparses := (Read.Parses.i32 (LittleEndian.value payload)).mapError FieldError.buffer
    rw [← h, LittleEndian.digits_value] at hparses
    exact hparses
  have hlong : ∀ payload : List UInt8, payload.length = 8 →
      Read.Parses (liftM Read.i64 : Read FieldError Int64) payload
        (Int64.ofNat (LittleEndian.value payload)) := by
    intro payload h
    have hparses := ((Read.Parses.u64 (LittleEndian.value payload)).map UInt64.toInt64).mapError
      FieldError.buffer
    rw [← h, LittleEndian.digits_value] at hparses
    exact hparses
  cases kind with
  | byte =>
    cases hlayout
    exact ⟨rfl, 4, rfl, fun payload h => if_neg h, fun payload h => ⟨.byte _, if_pos h,
      fun limits => (hword payload h).map fun n : Int32 => some (FieldValue.byte n.toInt8)⟩⟩
  | short =>
    cases hlayout
    exact ⟨rfl, 4, rfl, fun payload h => if_neg h, fun payload h => ⟨.short _, if_pos h,
      fun limits => (hword payload h).map fun n : Int32 => some (FieldValue.short n.toInt16)⟩⟩
  | int =>
    cases hlayout
    exact ⟨rfl, 4, rfl, fun payload h => if_neg h, fun payload h => ⟨.int _, if_pos h,
      fun limits => (hword payload h).map fun n : Int32 => some (FieldValue.int n)⟩⟩
  | long =>
    cases hlayout
    exact ⟨rfl, 8, rfl, fun payload h => if_neg h, fun payload h => ⟨.long _, if_pos h,
      fun limits => (hlong payload h).map fun n : Int64 => some (FieldValue.long n)⟩⟩
  | _ =>
    cases hlayout
    cases hinteger

end PlainKind

namespace Decode

variable {bytes : Array UInt8} {header : FieldHeader} {entry : FieldDescriptor}

/-- A payload of the wrong width brings no value. -/
lemma single_of_size_ne {type : String} {limits : Limits} {kind : ValueKind} {optional : Bool}
    {width : Nat} (hwidth : entry.semantic.fixedSize = some width) (hnull : kind.ofNull? = none)
    (hsize : header.size ≠ width) (r : Reader) :
    (∃ r', single type limits header entry kind optional r = .ok none r') ∨
      ∃ e r', single type limits header entry kind optional r = .error e r' := by
  unfold single
  rw [hnull, hwidth]
  dsimp only
  by_cases hempty : header.isNull
  · rw [if_pos hempty]
    cases optional with
    | true => exact .inl ⟨r, rfl⟩
    | false => exact .inr ⟨.unexpectedNull, r, rfl⟩
  · rw [if_neg hempty, if_pos hsize]
    exact .inr ⟨.sizeMismatch width header.size, r, rfl⟩

/-- A field tells of an integer just if it is above the gate. -/
lemma gateReport_integer {type : String} {kind : PlainKind} {optional : Bool} {v : FieldValue}
    {payload : List UInt8} (hinteger : entry.semantic.isInteger)
    (hfound : kind.integer? payload = v.gateNumber?) :
    gateReport type entry (.value (.plain kind) optional) (.value (some v)) =
      (entry.crossing? type payload (.value (.plain kind) optional)).toList := by
  have hcrossed : ∀ found, entry.crossedGate? found =
      entry.options.versionGate.filter fun gate => gate < found := by
    intro found
    simp only [FieldDescriptor.crossedGate?, hinteger, Bool.true_and]
  simp only [gateReport, FieldDescriptor.crossing?, Option.bind_some, ValueKind.gateNumber?]
  rw [hfound]
  cases v.gateNumber? with
  | none => rfl
  | some found =>
    dsimp only [Option.bind_some]
    rw [hcrossed]
    cases entry.options.versionGate.filter fun gate => gate < found <;> rfl

/-- A field that holds no integers tells nothing. -/
lemma gateReport_of_not_isInteger {type : String} {kind : ValueKind} {optional : Bool}
    (hinteger : ¬ entry.semantic.isInteger) (m : Member) :
    gateReport type entry (.value kind optional) m = [] := by
  have hcrossed : ∀ found, entry.crossedGate? found = none := by
    intro found
    simp only [FieldDescriptor.crossedGate?, Bool.eq_false_iff.mpr hinteger, Bool.false_and]
    cases entry.options.versionGate <;> rfl
  cases m with
  | value v =>
    simp only [gateReport]
    cases v.bind kind.gateNumber? with
    | none => rfl
    | some found =>
      dsimp only
      rw [hcrossed]
  | _ => rfl

/-- The member of a field with a single value, by what is read from the payload. -/
lemma member_value (env : Environment) (limits : Limits) (nested : ObjectReader) (type : String)
    (header : FieldHeader) (entry : FieldDescriptor) (kind : ValueKind) (optional : Bool)
    (r : Reader) :
    member env limits nested type header entry (.value kind optional) ⟨r, []⟩ =
      match single type limits header entry kind optional r with
      | .ok v r' => .ok (.value v) ⟨r', []⟩
      | .error e r' => .error (.field e) ⟨r', []⟩ := by
  show (payload (single type limits header entry kind optional) >>= fun v =>
    pure (Member.value v)) ⟨r, []⟩ = _
  rw [bind_apply]
  unfold payload onReader
  dsimp only
  cases single type limits header entry kind optional r <;> rfl

/-- A field with a single value tells of it what the bytes say. -/
lemma plain_gates {env : Environment} {limits : Limits} {nested : ObjectReader} {type : String}
    {kind : PlainKind} {optional : Bool}
    (hlayout : kind.shape.resolve entry.options = .ok entry.semantic)
    (hwindow : (header.window bytes).Sound) :
    match member env limits nested type header entry (.value (.plain kind) optional)
      ⟨header.window bytes, []⟩ with
    | .ok m _ => gateReport type entry (.value (.plain kind) optional) m =
        (entry.crossing? type (header.payload bytes) (.value (.plain kind) optional)).toList
    | .error _ _ =>
      entry.crossing? type (header.payload bytes) (.value (.plain kind) optional) = none := by
  have hnothing : kind.integer? (header.payload bytes) = none →
      entry.crossing? type (header.payload bytes) (.value (.plain kind) optional) = none := by
    intro hnone
    rw [FieldDescriptor.crossing?, hnone]
    rfl
  have hlength := FieldHeader.length_payload hwindow
  rw [member_value]
  by_cases hinteger : entry.semantic.isInteger
  · obtain ⟨hnull, width, hwidth, hother, hsame⟩ := PlainKind.integer?_cases hlayout hinteger
    by_cases hsize : header.size = width
    · -- the payload is as wide as the integers are, so one is read from it
      obtain ⟨v, hfound, hread⟩ := hsame _ (hlength.trans hsize)
      obtain ⟨hzero, -⟩ := Semantic.fixedSize_bounds hwidth
      have hvalue : ¬ header.isNull := by
        rw [FieldHeader.isNull, beq_iff_eq]
        omega
      have hfits : ∀ other, entry.semantic.fixedSize = some other → header.size = other := by
        intro other hsome
        rw [hwidth] at hsome
        cases hsome
        exact hsize
      have hparses : Read.Parses (single type limits header entry (.plain kind) optional)
          (header.payload bytes) (some v) := single_parses (hread limits) hvalue hfits
      rw [hparses _ hwindow List.prefix_rfl]
      exact gateReport_integer hinteger hfound
    · have hnone := hnothing (hother _ (by omega))
      rcases single_of_size_ne hwidth (show (ValueKind.plain kind).ofNull? = none from hnull) hsize
        (header.window bytes) with ⟨r', hrun⟩ | ⟨e, r', hrun⟩
      · rw [hrun, hnone]
        rfl
      · rw [hrun]
        exact hnone
  · have hnone := hnothing (PlainKind.integer?_of_not_isInteger hlayout hinteger _)
    cases single type limits header entry (.plain kind) optional (header.window bytes) with
    | ok v r' =>
      dsimp only
      rw [hnone]
      exact gateReport_of_not_isInteger hinteger _
    | error e r' => exact hnone

/-- A field tells of its member what the bytes of the payload say. If there is no member, they say
nothing. -/
theorem member_gates {env : Environment} {limits : Limits} {nested : ObjectReader} {type : String}
    {kind : FieldKind} (hlayout : kind.shape.resolve entry.options = .ok entry.semantic)
    (hwindow : (header.window bytes).Sound) :
    match member env limits nested type header entry kind ⟨header.window bytes, []⟩ with
    | .ok m _ =>
      gateReport type entry kind m = (entry.crossing? type (header.payload bytes) kind).toList
    | .error _ _ => entry.crossing? type (header.payload bytes) kind = none := by
  -- a field of any other kind has no gate that could tell anything
  have hsilent : (∀ m, gateReport type entry kind m = []) →
      entry.crossing? type (header.payload bytes) kind = none →
      match member env limits nested type header entry kind ⟨header.window bytes, []⟩ with
      | .ok m _ =>
        gateReport type entry kind m = (entry.crossing? type (header.payload bytes) kind).toList
      | .error _ _ => entry.crossing? type (header.payload bytes) kind = none := by
    intro hreport hnone
    rw [hnone]
    cases member env limits nested type header entry kind ⟨header.window bytes, []⟩ with
    | ok m s => exact hreport m
    | error e s => rfl
  cases kind with
  | value kind optional =>
    cases kind with
    | plain kind => exact plain_gates hlayout hwindow
    | refined kind =>
      refine hsilent (fun m => ?_) rfl
      cases m with
      | value v => cases v <;> rfl
      | _ => rfl
    | uncarried shape =>
      refine hsilent (fun m => ?_) rfl
      cases m with
      | value v => cases v <;> rfl
      | _ => rfl
  | _ => exact hsilent (fun m => rfl) rfl

/-- What a field of a frame tells of its gate is what the bytes say. -/
theorem own_gates {env : Environment} {limits : Limits} {nested : ObjectReader} {schema : Schema}
    (hschema : schema.WellFormed) (hwindow : (header.window bytes).Sound) {effect : FieldEffect}
    (h : fieldEffect env limits nested schema bytes header = .ok effect) :
    effect.own.filter Diagnostic.isGate = (schema.crossing? bytes header).toList := by
  unfold fieldEffect at h
  unfold Schema.crossing?
  cases hentry : schema.entry? header.id with
  | none =>
    rw [hentry] at h
    cases h
    rfl
  | some registered =>
    obtain ⟨entry, kind⟩ := registered
    have hgates := @member_gates bytes header entry env limits nested schema.name kind
      (hschema.resolve_eq (entry?_mem_entries hentry)) hwindow
    rw [hentry] at h
    dsimp only at h
    dsimp only [Option.bind_some]
    cases hrun : member env limits nested schema.name header entry kind
      ⟨header.window bytes, []⟩ with
    | ok m s =>
      rw [hrun] at h hgates
      cases h
      dsimp only at hgates ⊢
      rw [List.filter_eq_self.mpr]
      · exact hgates
      · intro event hevent
        obtain ⟨gate, found, rfl⟩ := eq_versionGate_of_mem_gateReport hevent
        rfl
    | error e s =>
      rw [hrun] at h hgates
      dsimp only at h hgates
      split at h
      · cases h
      · cases h
        rw [hgates]
        rfl

end Decode

/-! ## Reading objects -/

/-- What comes of reading an object, without what version gates tell. -/
def Read.ungated : EStateM.Result CodecError Reader (Object × Report) →
    EStateM.Result CodecError Reader (Object × Report)
  | .ok (o, report) r => .ok (o, Report.ungated report) r
  | .error e r => .error e r

/-- An object of a type without gates is read as an object of the type, up to what gates tell. -/
lemma decode_ungated (env : Environment) (limits : Limits) (type : String) (r : Reader) :
    decode env.ungated limits type r = Read.ungated (decode env limits type r) := by
  have hobject : decodeObject env.ungated limits limits.maxDepth type ⟨r, []⟩ =
      Decode.ungated (decodeObject env limits limits.maxDepth type ⟨r, []⟩) :=
    decodeObject_unwatched env limits limits.maxDepth type ⟨r, []⟩
  unfold decode
  rw [hobject]
  cases decodeObject env limits limits.maxDepth type ⟨r, []⟩ with
  | error e s => rfl
  | ok o s =>
    show EStateM.Result.ok (o, (Report.ungated s.events).reverse) s.reader =
      .ok (o, Report.ungated s.events.reverse) s.reader
    simp only [Report.ungated, List.filter_reverse]

/-- Objects of types with one schema are read in the same way. -/
lemma decode_schema_congr {env : Environment} {type type' : String}
    (h : env.schemaOf type = env.schemaOf type') (limits : Limits) (r : Reader) :
    decode env limits type r = decode env limits type' r := by
  have hobject : decodeObject env limits limits.maxDepth type =
      decodeObject env limits limits.maxDepth type' := by
    cases limits.maxDepth <;> simp only [decodeObject, h]
  unfold decode
  rw [hobject]

/-- Version gates only observe. Types that differ in the gates of their fields, and in nothing
else, are read with the same failure, or with the same object, up to the same position, and with
the same report, what gates tell left aside. What the gates of a type tell is known from the bytes:
one thing for each field of the frame whose payload is an integer above the gate, in the order of
the bytes.

The integers are those of the format. A kind with a meaning of its own keeps to the default, which
is that no gate watches it.

**Proof sketch.** Without gates, every step of reading does what it does with them, after any
report: by induction over the steps, nothing that a gate told is looked at again. So both types are
read as the type without gates is. As for what is told, reading is a fold over the fields of the
frame. A field whose payload is as wide as its integers brings the integer and, if it is above the
gate, what the gate tells. A payload of another width, or a null, brings no integer. -/
theorem decode_gates {types types' : List TypeDecl} {interfaces : InterfaceRegistry}
    {type type' : String} (htypes : types.map TypeDecl.ungated = types'.map TypeDecl.ungated)
    (htype : ((Environment.ofTypes types interfaces).schemaOf type).map Schema.ungated =
      ((Environment.ofTypes types' interfaces).schemaOf type').map Schema.ungated)
    (limits : Limits) {r : Reader} (hr : r.Sound) :
    Read.ungated (decode (.ofTypes types interfaces) limits type r) =
      Read.ungated (decode (.ofTypes types' interfaces) limits type' r) ∧
    ∀ o report r', decode (.ofTypes types interfaces) limits type r = .ok (o, report) r' →
      ∃ (levels : Nat) (schema : Schema) (frame : FrameOutline)
          (fields : List (FieldHeader × FieldEffect)), limits.maxDepth = levels + 1 ∧
        (Environment.ofTypes types interfaces).schemaOf type = .ok schema ∧
        Read.outline r = .ok frame r' ∧ fields.map Prod.fst = frame.headers ∧
        (∀ field ∈ fields, Decode.fieldEffect (.ofTypes types interfaces) limits
          (decodeObject (.ofTypes types interfaces) limits levels) schema r.bytes field.1 =
            .ok field.2) ∧
        report = fields.flatMap (fun field => field.2.inner ++ field.2.own) ∧
        (fields.flatMap fun field => field.2.own).filter Diagnostic.isGate =
          frame.headers.filterMap (schema.crossing? r.bytes) := by
  constructor
  · have henv : (Environment.ofTypes types interfaces).ungated =
        (Environment.ofTypes types' interfaces).ungated := by
      rw [Environment.ungated_ofTypes, Environment.ungated_ofTypes, htypes]
    rw [← Environment.schemaOf_ungated, ← Environment.schemaOf_ungated, henv] at htype
    rw [← decode_ungated, ← decode_ungated, henv]
    exact decode_schema_congr htype limits r
  · intro o report r' h
    obtain ⟨levels, schema, fresh, frame, fields, hdepth, hschema, -, hout, hheaders, heffects,
      hfold⟩ := decode_ok_cases hr h
    have hformed := Environment.ofTypes_wellFormed hschema
    refine ⟨levels, schema, frame, fields, hdepth, hschema, hout, hheaders,
      fun field hfield => (heffects field hfield).2, ?_, ?_⟩
    · have hreport := congrArg Prod.snd hfold
      rw [FieldEffect.report_fold] at hreport
      exact hreport
    · rw [List.filter_flatMap, ← hheaders, List.filterMap_map, List.filterMap_eq_flatMap_toList]
      exact List.flatMap_congr fun field hfield =>
        Decode.own_gates hformed (heffects field hfield).1 (heffects field hfield).2

namespace Sample

/-- A type with a gate on each of its integers. -/
def watched : TypeDecl :=
  fresh "Watched" none
    [.field 1 "byte" (plain .byte) { versionGate := some 5 },
    .field 2 "short" (plain .short) { versionGate := some 0 },
    .field 3 "maybe" (optional .int) { nullable := true, versionGate := some 10 }]

/-- The same type with other gates. -/
def rewatched : TypeDecl :=
  fresh "Watched" none
    [.field 1 "byte" (plain .byte) { versionGate := some 6 },
    .field 2 "short" (plain .short) {},
    .field 3 "maybe" (optional .int) { nullable := true, versionGate := some (-1) }]

/-- A frame with a byte, which a word of 0x106 is narrowed to, and a null. -/
def watchedFrame : Array UInt8 :=
  #[0x45, 0x4F, 12, 0, 1, 0, 4, 0, 6, 1, 0, 0, 3, 0, 0, 0]

/-- The object in the frame. -/
def watchedRead : Object :=
  ⟨[(1, .value (some (.byte 6))), (2, .value (some (.short 0))), (3, .value none)]⟩

end Sample

/-- The byte in the frame is above its gate under one type and not under the other. -/
theorem decode_gates_watched :
    [Sample.watched].map TypeDecl.ungated = [Sample.rewatched].map TypeDecl.ungated ∧
      decode (.ofTypes [Sample.watched] .empty) .small "Watched" (.ofBytes Sample.watchedFrame) =
        .ok (Sample.watchedRead, [.versionGate "Watched" "byte" 5 6])
          ⟨Sample.watchedFrame, 16, 16⟩ ∧
      Read.ungated (decode (.ofTypes [Sample.rewatched] .empty) .small "Watched"
          (.ofBytes Sample.watchedFrame)) =
        .ok (Sample.watchedRead, []) ⟨Sample.watchedFrame, 16, 16⟩ ∧
      ∃ (schema : Schema) (frame : FrameOutline) (fields : List (FieldHeader × FieldEffect)),
        fields.map Prod.fst = frame.headers ∧
        [.versionGate "Watched" "byte" 5 6] =
          fields.flatMap (fun field => field.2.inner ++ field.2.own) ∧
        (fields.flatMap fun field => field.2.own).filter Diagnostic.isGate =
          frame.headers.filterMap (schema.crossing? Sample.watchedFrame) := by
  have hread : decode (.ofTypes [Sample.watched] .empty) .small "Watched"
      (.ofBytes Sample.watchedFrame) =
        .ok (Sample.watchedRead, [.versionGate "Watched" "byte" 5 6])
          ⟨Sample.watchedFrame, 16, 16⟩ := rfl
  have htypes : [Sample.watched].map TypeDecl.ungated = [Sample.rewatched].map TypeDecl.ungated :=
    rfl
  have hschema : ((Environment.ofTypes [Sample.watched] .empty).schemaOf "Watched").map
      Schema.ungated =
        ((Environment.ofTypes [Sample.rewatched] .empty).schemaOf "Watched").map
          Schema.ungated := rfl
  obtain ⟨hsame, htold⟩ := decode_gates htypes hschema .small
    (show (Reader.ofBytes Sample.watchedFrame).Sound from Reader.sound_ofBytes (by decide))
  obtain ⟨-, schema, frame, fields, -, -, -, hheaders, -, hreport, hgates⟩ := htold _ _ _ hread
  refine ⟨htypes, hread, ?_, schema, frame, fields, hheaders, hreport, hgates⟩
  rw [← hsame, hread]
  rfl

end TaggedParcel
