import TaggedParcel.Proofs.Frame.Twin
import TaggedParcel.Proofs.Object.Fold

set_option relaxedAutoImplicit false
set_option autoImplicit false

/-!
# Objects say where they end

The header of an object promises an extent, and nothing that is read for the object lies behind
it: neither its value, nor its report with the reasons of the fields that were passed over. So
any bytes may follow an object, and an object that is cut short is overread.

## Main definitions

* `DecodeState.Twin` — states at twins, with the same report.

## Main results

* `Decode.Assembled.parallel` — what is assembled around objects runs alike on twins, if reading
  the objects does.
* `decodeObject_parallel` — objects are read alike from twins.
* `decode_extent` — what is read ends where the header says, and is read again from every buffer
  that starts with the same extent; a buffer that ends before that is overread.
-/

namespace TaggedParcel

open Reader (Twin)

/-- States at twins, with the same report so far. -/
inductive DecodeState.Twin (extent : Nat) : DecodeState → DecodeState → Prop where
  /-- The readers are twins. -/
  | intro {r₁ r₂ : Reader} (events : List Diagnostic) (hr : Reader.Twin extent r₁ r₂) :
    Twin extent ⟨r₁, events⟩ ⟨r₂, events⟩

namespace Decode

variable {ε α : Type} {extent : Nat} {env : Environment} {limits : Limits}
  {nested : ObjectReader}

/-! ## Steps -/

/-- A step on the reader goes the same way if it does so as such. -/
lemma parallel_onReader (rename : ε → CodecError) {step : Read ε α}
    (h : Parallel (Twin extent) step) :
    Parallel (DecodeState.Twin extent) (onReader rename step) := by
  rintro _ _ @⟨r₁, r₂, events, hr⟩
  have hstep := h r₁ r₂ hr
  unfold onReader
  dsimp only
  generalize step r₁ = result₁, step r₂ = result₂ at hstep ⊢
  cases hstep with
  | ok a hr => exact .ok a (.intro events hr)
  | error e hr => exact .error (rename e) (.intro events hr)

/-- Asking for a description goes the same way, because it does not look at the bytes. -/
lemma parallel_described (result : Except SchemaError α) :
    Parallel (DecodeState.Twin extent) (described result) := by
  cases result with
  | ok a => exact .pure a
  | error e => exact .throw _

/-- Reporting goes the same way. -/
lemma parallel_tell (event : Diagnostic) : Parallel (DecodeState.Twin extent) (tell event) := by
  rintro _ _ ⟨events, hr⟩
  exact .ok () (.intro (event :: events) hr)

/-- The position is the same in two buffers that agree. -/
lemma parallel_position : Parallel (DecodeState.Twin extent) position := by
  rintro _ _ ⟨events, ⟨pos, limit, hlimit, hbytes⟩⟩
  exact .ok pos (.intro events (.intro pos limit hlimit hbytes))

/-- Moving to a position goes the same way in two buffers that agree. -/
lemma parallel_seek (target : Nat) : Parallel (DecodeState.Twin extent) (seek target) :=
  parallel_onReader _ (Read.parallel_mapError _ (Read.parallel_seek target))

/-- A block under a limit goes the same way if the block does. -/
lemma parallel_within (stop : Nat) {block : Decode α}
    (h : Parallel (DecodeState.Twin extent) block) :
    Parallel (DecodeState.Twin extent) (within stop block) := by
  rintro _ _ ⟨events, @⟨bytes₁, bytes₂, pos, limit, hlimit, hbytes⟩⟩
  unfold within
  dsimp only
  split
  · exact .error _ (.intro events (.intro pos limit hlimit hbytes))
  · split
    · exact .error _ (.intro events (.intro pos limit hlimit hbytes))
    · have hblock := h _ _ (.intro events (.intro pos stop (by omega) hbytes))
      generalize block ⟨⟨bytes₁, pos, stop⟩, events⟩ = result₁,
        block ⟨⟨bytes₂, pos, stop⟩, events⟩ = result₂ at hblock ⊢
      cases hblock with
      | ok a hs =>
        cases hs with
        | intro events hr =>
          cases hr with
          | intro pos _ _ hbytes => exact .ok a (.intro events (.intro pos limit hlimit hbytes))
      | error e hs =>
        cases hs with
        | intro events hr =>
          cases hr with
          | intro pos _ _ hbytes => exact .error e (.intro events (.intro pos limit hlimit hbytes))

/-- What is assembled around objects runs alike on twins, if reading the objects does. -/
theorem Assembled.parallel {types : String → Prop} {m : Decode α} (h : Assembled nested types m)
    (hnested : ∀ type, types type → Parallel (DecodeState.Twin extent) (nested type)) :
    Parallel (DecodeState.Twin extent) m := by
  induction h with
  | pure a => exact .pure a
  | payload h => exact parallel_onReader _ (h.parallel extent)
  | object h => exact hnested _ h
  | bind _ _ ih ihnext => exact .bind ih ihnext
  | framed size _ ih =>
    exact parallel_position.bind fun _ => (parallel_within _ ih).bind fun a =>
      (parallel_seek _).bind fun _ => .pure a

/-! ## Fields and frames -/

/-- Whether a field is passed over, and what is reported of it, hangs on its failure alone. -/
lemma parallel_orSkip {body : Decode Member} (h : Parallel (DecodeState.Twin extent) body)
    (type : String) (entry : FieldDescriptor) (o : Object) :
    Parallel (DecodeState.Twin extent) (orSkip type entry o body) := by
  intro s₁ s₂ hs
  have hbody := h s₁ s₂ hs
  unfold orSkip
  generalize body s₁ = result₁, body s₂ = result₂ at hbody ⊢
  cases hbody with
  | ok m hs => exact .ok _ hs
  | error e hs =>
    dsimp only
    split
    · exact .error e hs
    · cases hs with
      | intro events hr => exact .ok o (.intro _ hr)

section Frames

variable (hnested : ∀ inner, Parallel (DecodeState.Twin extent) (nested inner))
include hnested

/-- A field is read alike from twins: its member is, and the gate looks at the member alone. -/
lemma parallel_field (type : String) (header : FieldHeader) (entry : FieldDescriptor)
    (kind : FieldKind) :
    Parallel (DecodeState.Twin extent) (field env limits nested type header entry kind) := by
  intro s₁ s₂ hs
  have hmember := (member_assembled env limits nested type header entry kind).parallel
    (fun inner _ => hnested inner) s₁ s₂ hs
  rw [field_apply, field_apply]
  generalize member env limits nested type header entry kind s₁ = result₁,
    member env limits nested type header entry kind s₂ = result₂ at hmember ⊢
  cases hmember with
  | ok m hs =>
    cases hs with
    | intro events hr => exact .ok m (.intro _ hr)
  | error e hs => exact .error e hs

/-- A field of a frame goes the same way in two buffers that agree. -/
lemma parallel_fieldInto (schema : Schema) (stop : Nat) (o : Object) :
    Parallel (DecodeState.Twin extent) (fieldInto env limits nested schema stop o) := by
  refine (parallel_onReader _ Read.parallel_fieldHeader).bind fun header => ?_
  dsimp only
  split
  · exact .throw _
  · cases schema.entry? header.id with
    | none =>
      exact (parallel_tell _).bind fun _ => (parallel_seek _).bind fun _ => .pure o
    | some registered =>
      exact (parallel_orSkip (parallel_within _ (parallel_field hnested _ _ _ _)) _ _ o).bind
        fun _ => (parallel_seek _).bind fun _ => .pure _

/-- The fields of a frame go the same way in two buffers that agree. -/
lemma parallel_fieldsInto (schema : Schema) (stop fuel : Nat) (o : Object) :
    Parallel (DecodeState.Twin extent) (fieldsInto env limits nested schema stop fuel o) := by
  induction fuel generalizing o with
  | zero => exact .pure o
  | succ fuel ih =>
    refine parallel_position.bind fun pos => ?_
    split
    · exact (parallel_fieldInto hnested schema stop o).bind fun o => ih o
    · exact .pure o

/-- A frame goes the same way in two buffers that agree, once its header was read. -/
lemma parallel_objectFrame (schema : Schema) (fresh : Object) :
    Parallel (DecodeState.Twin extent) (objectFrame env limits nested schema fresh) := by
  refine (parallel_onReader _ Read.parallel_objectHeader).bind fun stop =>
    parallel_position.bind fun start => ?_
  dsimp only
  split
  · exact .throw _
  · exact (parallel_within stop (parallel_fieldsInto hnested schema stop _ fresh)).bind fun o =>
      (parallel_seek stop).bind fun _ => .pure o

end Frames

end Decode

/-- Objects are read alike from twins: with the same value and the same report, or with the same
failure. -/
theorem decodeObject_parallel (env : Environment) (limits : Limits) (extent levels : Nat)
    (type : String) :
    Parallel (DecodeState.Twin extent) (decodeObject env limits levels type) := by
  induction levels generalizing type with
  | zero =>
    exact (Decode.parallel_described _).bind fun schema =>
      (Decode.parallel_described _).bind fun _ => .throw _
  | succ levels ih =>
    exact (Decode.parallel_described _).bind fun schema =>
      (Decode.parallel_described _).bind fun fresh => Decode.parallel_objectFrame ih schema fresh

/-! ## The extent of an object -/

namespace Decode

variable {env : Environment} {limits : Limits} {nested : ObjectReader} {schema : Schema}

/-- Behind its header, an object is its fields under the limit that the header promises, and
reading goes on behind them. -/
lemma objectFrame_of_header {r : Reader} {bytes : Array UInt8} {start stop limit : Nat}
    (hread : Read.objectHeader r = .ok stop ⟨bytes, start, limit⟩) (hstart : start ≤ stop)
    (hstop : stop ≤ limit) (fresh : Object) (events : List Diagnostic) :
    objectFrame env limits nested schema fresh ⟨r, events⟩ =
      if stop - start > limits.maxObjectBytes then
        .error (.field (.limit ⟨.objectBytes, limits.maxObjectBytes, stop - start⟩))
          ⟨⟨bytes, start, limit⟩, events⟩
      else
        match fieldsInto env limits nested schema stop (stop - start) fresh
          ⟨⟨bytes, start, stop⟩, events⟩ with
        | .ok o s => .ok o ⟨⟨s.reader.bytes, stop, limit⟩, s.events⟩
        | .error e s => .error e ⟨⟨s.reader.bytes, s.reader.pos, limit⟩, s.events⟩ := by
  have hwithin (block : Decode Object) :
      within stop block ⟨⟨bytes, start, limit⟩, events⟩ =
        match block ⟨⟨bytes, start, stop⟩, events⟩ with
        | .ok o s => .ok o ⟨⟨s.reader.bytes, s.reader.pos, limit⟩, s.events⟩
        | .error e s => .error e ⟨⟨s.reader.bytes, s.reader.pos, limit⟩, s.events⟩ := by
    unfold within
    dsimp only
    rw [if_neg (by omega), if_neg (by omega)]
    cases block ⟨⟨bytes, start, stop⟩, events⟩ <;> rfl
  have hseek (bytes : Array UInt8) (pos : Nat) (events : List Diagnostic) :
      seek stop ⟨⟨bytes, pos, limit⟩, events⟩ = .ok () ⟨⟨bytes, stop, limit⟩, events⟩ := by
    have hstep : Read.mapError FieldError.buffer (Read.seek stop) ⟨bytes, pos, limit⟩ =
        .ok () ⟨bytes, stop, limit⟩ := by
      simp only [Read.mapError, Read.seek]
      rw [if_neg (by omega)]
    show onReader .field (Read.mapError .buffer (Read.seek stop)) ⟨⟨bytes, pos, limit⟩, events⟩ = _
    simp only [onReader, hstep]
  unfold objectFrame
  rw [bind_apply, frame_apply, hread]
  dsimp only
  rw [bind_apply]
  simp only [position]
  split
  · rfl
  · rw [bind_apply, hwithin]
    cases fieldsInto env limits nested schema stop (stop - start) fresh
      ⟨⟨bytes, start, stop⟩, events⟩ with
    | error e s => rfl
    | ok o s =>
      dsimp only
      rw [bind_apply, hseek]
      rfl

/-- The fields of an object are read again, with the same report, from every buffer that has the
same bytes up to their end. -/
lemma fieldsInto_again {levels start stop : Nat} {bytes bytes' : Array UInt8} {fresh o : Object}
    {s : DecodeState} (hbytes : bytes.extract 0 stop = bytes'.extract 0 stop)
    (h : fieldsInto env limits (decodeObject env limits levels) schema stop (stop - start) fresh
      ⟨⟨bytes, start, stop⟩, []⟩ = .ok o s) :
    ∃ r', fieldsInto env limits (decodeObject env limits levels) schema stop (stop - start) fresh
      ⟨⟨bytes', start, stop⟩, []⟩ = .ok o ⟨r', s.events⟩ := by
  -- up to where the fields end the two buffers cannot be told apart
  have hagain := @parallel_fieldsInto stop env limits _
    (fun inner => decodeObject_parallel env limits stop levels inner) schema stop (stop - start)
    fresh _ _ (.intro [] (.intro start stop (Nat.le_refl _) hbytes))
  rw [h] at hagain
  generalize fieldsInto env limits (decodeObject env limits levels) schema stop (stop - start) fresh
    ⟨⟨bytes', start, stop⟩, []⟩ = result at hagain ⊢
  cases hagain with
  | ok _ hs =>
    cases hs
    exact ⟨_, rfl⟩

end Decode

/-- An object that is read from the start of a buffer ends before the buffer does, and is read
again, with the same report, from every buffer that starts with the same bytes. If the buffer ends
before the object does, it is overread.

**Proof sketch.** The header says where the object ends. It reads the same under any limit behind
that, and is overread under a limit before that. Behind the header the fields are read under the
limit that the header promised, so that the two runs are those of twins. -/
theorem decode_extent {env : Environment} {limits : Limits} {type : String} {bytes : Array UInt8}
    {o : Object} {report : Report} {r' : Reader}
    (h : decode env limits type (.ofBytes bytes) = .ok (o, report) r') :
    r'.pos ≤ bytes.size ∧
      (∀ suffix : Array UInt8, ∃ r'', r''.pos = r'.pos ∧
        decode env limits type (.ofBytes (bytes.extract 0 r'.pos ++ suffix)) =
          .ok (o, report) r'') ∧
      ∀ k < r'.pos, ∃ stop r'', k < stop ∧
        decode env limits type (.ofBytes (bytes.extract 0 k)) =
          .error (.corruption (.overread stop k)) r'' := by
  obtain ⟨levels, schema, fresh, s, hdepth, hschema, hfresh, hrun, rfl, rfl⟩ := decode_ok_frame h
  cases hheader : Read.objectHeader (.ofBytes bytes) with
  | error e r₁ =>
    unfold Decode.objectFrame at hrun
    rw [bind_apply, Decode.frame_apply, hheader] at hrun
    cases hrun
  | ok stop r₁ =>
    obtain ⟨start, rfl, hstart, hstop, hagain, hcut⟩ := Read.objectHeader_extent hheader
    rw [Decode.objectFrame_of_header hheader hstart hstop] at hrun
    split at hrun
    · cases hrun
    · rename_i hfits
      cases hfields : Decode.fieldsInto env limits (decodeObject env limits levels) schema stop
        (stop - start) fresh ⟨⟨bytes, start, stop⟩, []⟩ with
      | error e s₂ =>
        rw [hfields] at hrun
        cases hrun
      | ok o' s₂ =>
        rw [hfields] at hrun
        cases hrun
        refine ⟨hstop, fun suffix => ?_, fun k hk => ?_⟩
        · have hsize : (bytes.extract 0 stop).size = stop := by
            rw [Array.size_extract, Nat.sub_zero, Nat.min_eq_left hstop]
          have hprefix : bytes.extract 0 stop =
              (bytes.extract 0 stop ++ suffix).extract 0 stop := by
            rw [Array.extract_append, hsize, Nat.sub_self, Nat.zero_sub]
            simp
          have hroom : stop ≤ (bytes.extract 0 stop ++ suffix).size := by
            rw [Array.size_append, hsize]
            exact Nat.le_add_right _ _
          obtain ⟨r', hfields'⟩ := Decode.fieldsInto_again hprefix hfields
          rw [decode_apply hdepth hschema hfresh,
            Decode.objectFrame_of_header (hagain _ hprefix hroom) hstart hroom, if_neg hfits,
            hfields']
          exact ⟨⟨r'.bytes, stop, (bytes.extract 0 stop ++ suffix).size⟩, rfl, rfl⟩
        · obtain ⟨stop', r₂, hstop', hread⟩ := hcut k hk
          refine ⟨stop', r₂, hstop', ?_⟩
          rw [decode_apply hdepth hschema hfresh]
          unfold Decode.objectFrame
          rw [bind_apply, Decode.frame_apply, hread]
          rfl

namespace Sample

/-- A frame with a field of a point that is too short, a whole one, and a byte behind the
frame. -/
def shortFrame : Array UInt8 :=
  #[0x45, 0x4F, 14, 0, 1, 0, 2, 0, 5, 0, 2, 0, 4, 0, 6, 0, 0, 0, 0xFF]

/-- The point in the frame. -/
def shortRead : Object :=
  ⟨[(1, .value (some (.int 0))), (2, .value (some (.int 6)))]⟩

/-- What reading the frame reports. -/
def shortReport : Report :=
  [.fieldSkipped "Point" "x" 1 (CodecError.field (.sizeMismatch 4 2)).message]

end Sample

/-- The frame of the sample ends one byte before its buffer. -/
theorem decode_extent_short :
    decode Sample.points .small "Point" (.ofBytes Sample.shortFrame) =
        .ok (Sample.shortRead, Sample.shortReport) ⟨Sample.shortFrame, 18, 19⟩ ∧
      18 ≤ Sample.shortFrame.size ∧
      (∀ suffix : Array UInt8, ∃ r'', r''.pos = 18 ∧
        decode Sample.points .small "Point"
            (.ofBytes (Sample.shortFrame.extract 0 18 ++ suffix)) =
          .ok (Sample.shortRead, Sample.shortReport) r'') ∧
      ∀ k < 18, ∃ stop r'', k < stop ∧
        decode Sample.points .small "Point" (.ofBytes (Sample.shortFrame.extract 0 k)) =
          .error (.corruption (.overread stop k)) r'' := by
  have hread : decode Sample.points .small "Point" (.ofBytes Sample.shortFrame) =
      .ok (Sample.shortRead, Sample.shortReport) ⟨Sample.shortFrame, 18, 19⟩ := rfl
  exact ⟨hread, decode_extent hread⟩

end TaggedParcel
