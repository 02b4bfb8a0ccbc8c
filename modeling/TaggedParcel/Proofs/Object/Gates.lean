import TaggedParcel.Proofs.Object.Fold
import TaggedParcel.Proofs.Schema.Gates

set_option relaxedAutoImplicit false
set_option autoImplicit false

/-!
# Version gates only observe

A version gate adds to the report, and does nothing else. So an object of a type without gates is
read in the same way, up to what the gates tell.

## Main definitions

* `Report.ungated` — a report without what the version gates tell.
* `Decode.Unwatched` — a computation, and the same one without version gates.

## Main results

* `Decode.Unwatched.bind`, `Decode.Unwatched.orSkip` — what gates tell does not come back.
* `decodeObject_unwatched` — objects are read without gates as they are read with them.
-/

namespace TaggedParcel

/-- Whether it is said that an integer is above its version gate. -/
def Diagnostic.isGate : Diagnostic → Bool
  | .versionGate _ _ _ _ => true
  | .unknownField _ _ _ | .fieldSkipped _ _ _ _ | .fieldOmitted _ _ _ _ => false

/-- A report without what the version gates tell. -/
def Report.ungated (report : Report) : Report :=
  report.filter fun event => !event.isGate

/-- What was done so far, without what the version gates told. -/
def DecodeState.ungated (s : DecodeState) : DecodeState :=
  ⟨s.reader, Report.ungated s.events⟩

namespace Decode

variable {α β : Type}

/-- The outcome of a run, without what the version gates told. -/
def ungated : EStateM.Result CodecError DecodeState α → EStateM.Result CodecError DecodeState α
  | .ok a s => .ok a s.ungated
  | .error e s => .error e s.ungated

/-- The second computation does what the first one does, up to what version gates tell: after a
report without that, it has the same answer or failure, and leaves the same reader and the same
report, without that. -/
def Unwatched (m m' : Decode α) : Prop :=
  ∀ s, m' s.ungated = ungated (m s)

namespace Unwatched

variable {m m' : Decode α}

/-- Answering at once is the same without gates. -/
lemma pure (a : α) : Unwatched (Pure.pure a) (Pure.pure a) :=
  fun _ => rfl

/-- Failing at once is the same without gates. -/
lemma throw (e : CodecError) :
    Unwatched (MonadExcept.throw e : Decode α) (MonadExcept.throw e) :=
  fun _ => rfl

/-- Steps that are the same without gates are the same one after another. -/
lemma bind {next next' : α → Decode β} (h : Unwatched m m')
    (hnext : ∀ a, Unwatched (next a) (next' a)) : Unwatched (m >>= next) (m' >>= next') := by
  intro s
  rw [bind_apply, bind_apply, h s]
  cases m s with
  | ok a s' => exact hnext a s'
  | error e s' => rfl

/-- An answer that is the same without gates is the same when it is changed afterwards. -/
lemma map (h : Unwatched m m') (f : α → β) :
    Unwatched (m >>= fun a => Pure.pure (f a)) (m' >>= fun a => Pure.pure (f a)) :=
  bind h fun _ => pure _

/-- A step on the reader does not look at the report. -/
lemma onReader {ε : Type} (rename : ε → CodecError) (step : Read ε α) :
    Unwatched (onReader rename step) (onReader rename step) := by
  rintro ⟨r, events⟩
  unfold Decode.onReader DecodeState.ungated
  dsimp only
  cases step r <;> rfl

/-- A payload is the same without gates. -/
lemma payload (step : Read FieldError α) : Unwatched (payload step) (payload step) :=
  onReader _ step

/-- A type is described or not, whatever is done with the answer. -/
lemma described (result : Except SchemaError α) :
    Unwatched (described result) (described result) := by
  cases result with
  | ok a => exact pure a
  | error e => exact throw _

/-- What is no matter of a version gate is told all the same. -/
lemma tell {event : Diagnostic} (h : event.isGate = false) :
    Unwatched (tell event) (tell event) := by
  intro s
  have hevents : Report.ungated (event :: s.events) = event :: Report.ungated s.events := by
    simp [Report.ungated, h]
  show (.ok () ⟨s.reader, event :: Report.ungated s.events⟩ :
    EStateM.Result CodecError DecodeState Unit) = _
  rw [← hevents]
  rfl

/-- The position is the same without gates. -/
lemma position : Unwatched position position :=
  fun _ => rfl

/-- Moving to a position is the same without gates. -/
lemma seek (target : Nat) : Unwatched (seek target) (seek target) :=
  payload _

/-- A block under a limit is the same without gates if the block is. -/
lemma within (stop : Nat) (h : Unwatched m m') : Unwatched (within stop m) (within stop m') := by
  intro s
  have hm := h { s with reader := { s.reader with limit := stop } }
  unfold Decode.within
  show (if stop > s.reader.limit then _ else if stop < s.reader.pos then _ else
    match m' (DecodeState.ungated { s with reader := { s.reader with limit := stop } }) with
    | .ok a s' => EStateM.Result.ok a _
    | .error e s' => .error e _) = _
  rw [hm]
  split
  · rfl
  · split
    · rfl
    · cases m { s with reader := { s.reader with limit := stop } } <;> rfl

/-- Repeating a step that is the same without gates is the same. -/
lemma times (h : Unwatched m m') (count : Nat) : Unwatched (times count m) (times count m') := by
  have hgo : ∀ count done, Unwatched (Decode.times.go m count done)
      (Decode.times.go m' count done) := by
    intro count
    induction count with
    | zero => exact fun done => pure done.reverse
    | succ count ih =>
      intro done
      rw [times_go_succ, times_go_succ]
      exact bind h fun a => ih (a :: done)
  exact hgo count []

/-- Why a field is passed over has nothing to do with gates. -/
lemma orSkip {body body' : Decode Member} (h : Unwatched body body') (type : String)
    (entry : FieldDescriptor) (o : Object) :
    Unwatched (orSkip type entry o body) (orSkip type entry.ungated o body') := by
  intro s
  unfold Decode.orSkip
  rw [h s]
  cases body s with
  | ok m s' => rfl
  | error e s' =>
    dsimp only [ungated]
    cases e.isFatal <;> rfl

/-- A version gate at most tells something. -/
lemma watchGate (type : String) (entry : FieldDescriptor) (kind : ValueKind)
    (v : Option FieldValue) :
    Unwatched (watchGate type entry kind v) (watchGate type entry.ungated kind v) := by
  unfold Decode.watchGate
  cases v.bind kind.gateNumber? with
  | none => exact pure ()
  | some found =>
    dsimp only
    rw [FieldDescriptor.crossedGate?_ungated]
    cases entry.crossedGate? found with
    | none => exact pure ()
    | some gate => exact fun s => rfl

/-! ## Objects in payloads -/

variable {nested nested' : ObjectReader}

section Payloads

variable (hnested : ∀ type, Unwatched (nested type) (nested' type))
include hnested

/-- An object behind its size is the same without gates if objects are. -/
lemma element (type : String) : Unwatched (element nested type) (element nested' type) := by
  refine bind (payload _) fun size => ?_
  dsimp only
  split
  · exact pure none
  · exact bind position fun _ => bind (within _ (hnested type)) fun o =>
      bind (seek _) fun _ => pure (some o)

/-- An object behind a tag is the same without gates if objects are. -/
lemma tagged (type : String) : Unwatched (tagged nested type) (tagged nested' type) := by
  refine bind (payload _) fun tag => ?_
  cases tag with
  | null => exact pure none
  | parcelable => exact bind (payload _) fun _ => map (hnested type) _
  | _ => exact throw _

end Payloads

/-- An object that must not be missing is the same without gates if one that may be missing is. -/
lemma required {o o' : Decode (Option Object)} (h : Unwatched o o') :
    Unwatched (required o) (required o') := by
  refine bind h fun o => ?_
  cases o with
  | none => exact throw _
  | some o => exact pure o

/-- A counted collection is the same without gates if its items are. -/
lemma collection (limits : Limits) (header : FieldHeader) (h : Unwatched m m') :
    Unwatched (collection limits header m) (collection limits header m') := by
  unfold Decode.collection
  split
  · exact pure []
  · refine bind (payload _) fun count => ?_
    cases count with
    | none => exact pure []
    | some count => exact times h count

section Fields

variable (hnested : ∀ type, Unwatched (nested type) (nested' type))
include hnested

/-- A member is read without the gate of its field as it is read with it. -/
theorem field (env : Environment) (limits : Limits) (type : String) (header : FieldHeader)
    (entry : FieldDescriptor) (kind : FieldKind) :
    Unwatched (field env limits nested type header entry kind)
      (field env.ungated limits nested' type header entry.ungated kind) := by
  cases kind with
  | value kind optional =>
    exact bind (payload _) fun v => map (watchGate type entry kind v) _
  | list kind =>
    simp only [Decode.field]
    split
    · exact pure _
    · exact map (payload _) _
  | map k v =>
    simp only [Decode.field]
    split
    · exact pure _
    · exact map (payload _) _
  | object inner =>
    simp only [Decode.field]
    split
    · exact pure _
    · exact map (hnested inner) _
  | objectArray inner => exact map (collection limits header (element hnested inner)) _
  | objectList inner =>
    refine map (collection limits header (required ?_)) _
    rw [FieldDescriptor.ungated_semantic]
    split
    · exact tagged hnested inner
    · exact element hnested inner
  | objectMap k inner =>
    exact map (collection limits header (bind (payload _) fun key =>
      map (required (tagged hnested inner)) _)) _
  | interface proxy =>
    simp only [Decode.field]
    split
    · exact pure _
    · exact map (payload _) _

/-- A field of a frame is the same without gates, but for what its gate tells. -/
lemma fieldInto (env : Environment) (limits : Limits) (schema : Schema) (stop : Nat) (o : Object) :
    Unwatched (fieldInto env limits nested schema stop o)
      (fieldInto env.ungated limits nested' schema.ungated stop o) := by
  refine bind (onReader _ _) fun header => ?_
  dsimp only
  split
  · exact throw _
  · rw [Schema.entry?_ungated, Schema.ungated_name]
    cases schema.entry? header.id with
    | none => exact bind (tell rfl) fun _ => map (seek _) _
    | some registered =>
      obtain ⟨entry, kind⟩ := registered
      exact bind (orSkip (within _ (field hnested env limits _ header entry kind)) _ entry o)
        fun _ => map (seek _) _

/-- The fields of a frame are the same without gates. -/
lemma fieldsInto (env : Environment) (limits : Limits) (schema : Schema) (stop fuel : Nat)
    (o : Object) :
    Unwatched (fieldsInto env limits nested schema stop fuel o)
      (fieldsInto env.ungated limits nested' schema.ungated stop fuel o) := by
  induction fuel generalizing o with
  | zero => exact pure o
  | succ fuel ih =>
    refine bind position fun pos => ?_
    split
    · exact bind (fieldInto hnested env limits schema stop o) fun o => ih o
    · exact pure o

/-- A frame is the same without gates. -/
lemma objectFrame (env : Environment) (limits : Limits) (schema : Schema) (fresh : Object) :
    Unwatched (objectFrame env limits nested schema fresh)
      (objectFrame env.ungated limits nested' schema.ungated fresh) := by
  refine bind (onReader _ _) fun stop => bind position fun start => ?_
  dsimp only
  split
  · exact throw _
  · exact bind (within stop (fieldsInto hnested env limits schema stop _ fresh)) fun o =>
      map (seek stop) _

end Fields

end Unwatched

end Decode

/-- Objects are read without version gates as they are read with them.

**Proof sketch.** Induction on the levels that are left. -/
theorem decodeObject_unwatched (env : Environment) (limits : Limits) (levels : Nat)
    (type : String) :
    Decode.Unwatched (decodeObject env limits levels type)
      (decodeObject env.ungated limits levels type) := by
  induction levels generalizing type with
  | zero =>
    unfold decodeObject
    rw [Environment.schemaOf_ungated]
    cases env.schemaOf type with
    | error e => exact .throw _
    | ok schema =>
      show Decode.Unwatched (Decode.described schema.construct >>= fun _ => throw _ : Decode Object)
        (Decode.described schema.construct >>= fun _ => throw _)
      exact .bind (.described _) fun _ => .throw _
  | succ levels ih =>
    unfold decodeObject
    rw [Environment.schemaOf_ungated]
    cases env.schemaOf type with
    | error e => exact .throw _
    | ok schema =>
      show Decode.Unwatched
        (Decode.described schema.construct >>= fun fresh =>
          Decode.objectFrame env limits (decodeObject env limits levels) schema fresh)
        (Decode.described schema.construct >>= fun fresh =>
          Decode.objectFrame env.ungated limits (decodeObject env.ungated limits levels)
            schema.ungated fresh)
      exact .bind (.described _) fun fresh => .objectFrame ih env limits schema fresh

end TaggedParcel
