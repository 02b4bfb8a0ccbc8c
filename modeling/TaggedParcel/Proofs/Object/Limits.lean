import TaggedParcel.Proofs.Object.Fold
import TaggedParcel.Proofs.Schema.Kinds
import TaggedParcel.Proofs.Value.Limits
import TaggedParcel.Sample.Nesting

set_option relaxedAutoImplicit false
set_option autoImplicit false

/-!
# Reading objects under larger limits

A limit that is crossed inside a field is not a failure of the object: the field is passed over,
and the report says so. So larger limits may bring back fields. But where no field was passed over,
no limit was crossed, and larger limits change nothing: neither the object nor its report, nor
where reading ends.

## Main definitions

* `Report.Lossless` — reports of which no entry says that a field was passed over.
* `Decode.Upheld` — what one computation answers without loss, another one answers as well.
* `Environment.Tolerant` — environments of types all of whose kinds are tolerant.

## Main results

* `Decode.Upheld.bind`, `Decode.Upheld.orSkip` — a report never loses an entry, so what is lossless
  in the end has been so all the time.
* `Environment.tolerant_ofTypes` — declared types are tolerant if their kinds are.
* `decodeObject_upheld` — objects are read under larger limits, with more levels.
* `decode_raise` — raising limits does not change what was read without loss.
-/

namespace TaggedParcel

/-- Reports of which no entry says that a field was passed over. -/
def Report.Lossless (report : Report) : Prop :=
  ∀ type field id reason, Diagnostic.fieldSkipped type field id reason ∉ report

/-- Kinds of fields whose values are tolerant. -/
def FieldKind.Tolerant (limits limits' : Limits) : FieldKind → Prop
  | .value kind _ => kind.Tolerant limits limits'
  | _ => True

/-- Environments in which the fields of all types accept under larger limits what they accept under
smaller ones. -/
def Environment.Tolerant (env : Environment) (limits limits' : Limits) : Prop :=
  ∀ type schema, env.schemaOf type = .ok schema →
    ∀ entry ∈ schema.kinds, entry.2.Tolerant limits limits'

/-- Declared types are tolerant if the kinds are that they declare. -/
lemma Environment.tolerant_ofTypes {types : List TypeDecl} {limits limits' : Limits}
    (h : ∀ decl ∈ types, decl.Declares (FieldKind.Tolerant limits limits'))
    (interfaces : InterfaceRegistry) : (ofTypes types interfaces).Tolerant limits limits' :=
  fun _ _ hschema => ofTypes_kinds h hschema

/-- What was reported before a run without loss was reported without loss. -/
lemma Report.Lossless.of_suffix {events events' : List Diagnostic}
    (h : Report.Lossless events') (hsuffix : events <:+ events') : Report.Lossless events :=
  fun type field id reason hmem => h type field id reason (hsuffix.mem hmem)

namespace Decode

variable {α β : Type}

/-- Runs only add to the report, and what the first computation answers without loss, the second
one answers as well, with the same report. -/
def Upheld (m m' : Decode α) : Prop :=
  ∀ s, match m s with
    | .ok a s' => s.events <:+ s'.events ∧ (Report.Lossless s'.events → m' s = .ok a s')
    | .error _ s' => s.events <:+ s'.events

namespace Upheld

variable {m m' : Decode α}

/-- Answering at once is upheld. -/
lemma pure (a : α) : Upheld (Pure.pure a) (Pure.pure a) :=
  fun _ => ⟨List.suffix_rfl, fun _ => rfl⟩

/-- What fails at once is upheld by anything. -/
lemma throw (e : CodecError) (m' : Decode α) : Upheld (MonadExcept.throw e) m' :=
  fun _ => List.suffix_rfl

/-- What is lossless behind the second of two computations was lossless behind the first. -/
lemma bind {next next' : α → Decode β} (h : Upheld m m')
    (hnext : ∀ a, Upheld (next a) (next' a)) : Upheld (m >>= next) (m' >>= next') := by
  intro s
  have hm := h s
  rw [bind_apply, bind_apply]
  cases hrun : m s with
  | error e s₁ =>
    rw [hrun] at hm
    exact hm
  | ok a s₁ =>
    rw [hrun] at hm
    obtain ⟨hgrow, hsame⟩ := hm
    have hrest := hnext a s₁
    dsimp only
    cases hrun' : next a s₁ with
    | error e s₂ =>
      rw [hrun'] at hrest
      exact hgrow.trans hrest
    | ok b s₂ =>
      rw [hrun'] at hrest
      refine ⟨hgrow.trans hrest.1, fun hlossless => ?_⟩
      rw [hsame (hlossless.of_suffix hrest.1)]
      exact hrest.2 hlossless

/-- An answer that is upheld is upheld when it is changed afterwards. -/
lemma map (h : Upheld m m') (f : α → β) :
    Upheld (m >>= fun a => Pure.pure (f a)) (m' >>= fun a => Pure.pure (f a)) :=
  bind h fun _ => pure _

/-- A step on the reader is upheld if it is upheld as such. -/
lemma onReader {ε : Type} (rename : ε → CodecError) {step step' : Read ε α}
    (h : Read.Upheld step step') : Upheld (onReader rename step) (onReader rename step') := by
  rintro ⟨r, events⟩
  unfold Decode.onReader
  dsimp only
  cases hstep : step r with
  | ok a r' =>
    rw [h hstep]
    exact ⟨List.suffix_rfl, fun _ => rfl⟩
  | error e r' => exact List.suffix_rfl

/-- A payload is upheld if its step is. -/
lemma payload {step step' : Read FieldError α} (h : Read.Upheld step step') :
    Upheld (payload step) (payload step') :=
  onReader _ h

/-- A type is described under all limits alike. -/
lemma described (result : Except SchemaError α) : Upheld (described result) (described result) := by
  cases result with
  | ok a => exact pure a
  | error e => exact throw _ _

/-- Reporting is upheld. -/
lemma tell (event : Diagnostic) : Upheld (tell event) (tell event) :=
  fun _ => ⟨List.suffix_cons _ _, fun _ => rfl⟩

/-- The position is the same under all limits. -/
lemma position : Upheld position position :=
  fun _ => ⟨List.suffix_rfl, fun _ => rfl⟩

/-- Moving to a position is upheld. -/
lemma seek (target : Nat) : Upheld (seek target) (seek target) :=
  payload (.refl _)

/-- A block under a limit on the position is upheld if the block is. -/
lemma within (stop : Nat) (h : Upheld m m') : Upheld (within stop m) (within stop m') := by
  intro s
  unfold Decode.within
  by_cases hlimit : stop > s.reader.limit
  · simp only [if_pos hlimit, List.suffix_rfl]
  · rw [if_neg hlimit, if_neg hlimit]
    by_cases hpos : stop < s.reader.pos
    · simp only [if_pos hpos, List.suffix_rfl]
    · rw [if_neg hpos, if_neg hpos]
      have hm := h { s with reader := { s.reader with limit := stop } }
      cases hrun : m { s with reader := { s.reader with limit := stop } } with
      | error e s₁ =>
        rw [hrun] at hm
        exact hm
      | ok a s₁ =>
        rw [hrun] at hm
        refine ⟨hm.1, fun hlossless => ?_⟩
        rw [hm.2 hlossless]

/-- Repeating a step that is upheld is upheld. -/
lemma times (h : Upheld m m') (count : Nat) : Upheld (times count m) (times count m') := by
  have hgo : ∀ count done, Upheld (Decode.times.go m count done)
      (Decode.times.go m' count done) := by
    intro count
    induction count with
    | zero => exact fun done => pure done.reverse
    | succ count ih =>
      intro done
      rw [times_go_succ, times_go_succ]
      exact bind h fun a => ih (a :: done)
  exact hgo count []

/-- A field that is passed over leaves its mark in the report. -/
lemma orSkip {body body' : Decode Member} (h : Upheld body body') (type : String)
    (entry : FieldDescriptor) (o : Object) :
    Upheld (orSkip type entry o body) (orSkip type entry o body') := by
  intro s
  have hbody := h s
  unfold Decode.orSkip
  cases hrun : body s with
  | ok m s₁ =>
    rw [hrun] at hbody
    refine ⟨hbody.1, fun hlossless => ?_⟩
    rw [hbody.2 hlossless]
  | error e s₁ =>
    rw [hrun] at hbody
    dsimp only
    cases e.isFatal with
    | true => exact hbody
    | false =>
      refine ⟨hbody.trans (List.suffix_cons _ _), fun hlossless => ?_⟩
      exact absurd List.mem_cons_self (hlossless _ _ _ _)

/-! ## Objects in payloads -/

variable {nested nested' : ObjectReader}

/-- An object behind its size is upheld if objects are. -/
lemma element (hnested : ∀ type, Upheld (nested type) (nested' type)) (type : String) :
    Upheld (element nested type) (element nested' type) := by
  refine bind (payload (.refl _)) fun size => ?_
  dsimp only
  split
  · exact pure none
  · exact bind position fun _ => bind (within _ (hnested type)) fun o =>
      bind (seek _) fun _ => pure (some o)

/-- An object behind a tag is upheld if objects are. -/
lemma tagged (hnested : ∀ type, Upheld (nested type) (nested' type)) (type : String) :
    Upheld (tagged nested type) (tagged nested' type) := by
  refine bind (payload (.refl _)) fun tag => ?_
  cases tag with
  | null => exact pure none
  | parcelable => exact bind (payload (.refl _)) fun _ => map (hnested type) _
  | _ => exact throw _ _

/-- An object that must not be missing is upheld if one that may be missing is. -/
lemma required {o o' : Decode (Option Object)} (h : Upheld o o') :
    Upheld (required o) (required o') := by
  refine bind h fun o => ?_
  cases o with
  | none => exact throw _ _
  | some o => exact pure o

variable {env : Environment} {limits limits' : Limits} (hle : limits.AtMost limits')
include hle

/-- A counted collection is upheld if its items are. -/
lemma collection (header : FieldHeader) (h : Upheld m m') :
    Upheld (collection limits header m) (collection limits' header m') := by
  unfold Decode.collection
  split
  · exact pure []
  · refine bind (payload (Read.Upheld.count hle)) fun count => ?_
    cases count with
    | none => exact pure []
    | some count => exact times h count

/-- A single value is upheld if its kind is tolerant. -/
lemma single {kind : ValueKind} (hkind : kind.Tolerant limits limits') (type : String)
    (header : FieldHeader) (entry : FieldDescriptor) (optional : Bool) :
    Read.Upheld (single type limits header entry kind optional)
      (single type limits' header entry kind optional) := by
  have hread : ∀ next : Option FieldValue → Read FieldError (Option FieldValue), Read.Upheld
      (kind.read type limits >>= next) (kind.read type limits' >>= next) :=
    fun _ => .bind (.valueKind hle hkind type) fun _ => .refl _
  unfold Decode.single
  dsimp only
  split
  · exact .refl _
  · cases entry.semantic.fixedSize with
    | none => exact hread _
    | some expected =>
      dsimp only
      split
      · exact .throw _ _
      · exact hread _

/-- A member is read under larger limits, if its kind is tolerant and the objects in it are read
under larger limits. -/
theorem field {kind : FieldKind} (hkind : kind.Tolerant limits limits')
    (hnested : ∀ type, Upheld (nested type) (nested' type)) (type : String) (header : FieldHeader)
    (entry : FieldDescriptor) :
    Upheld (field env limits nested type header entry kind)
      (field env limits' nested' type header entry kind) := by
  cases kind with
  | value kind optional =>
    refine bind (payload (single hle hkind type header entry optional)) fun v => map ?_ _
    unfold watchGate
    split
    · exact pure ()
    · split
      · exact pure ()
      · exact tell _
  | list kind =>
    simp only [Decode.field]
    split
    · exact pure _
    · exact map (payload (.listPayload hle kind _)) _
  | map k v =>
    simp only [Decode.field]
    split
    · exact pure _
    · exact map (payload (.mapPayload hle k v)) _
  | object inner =>
    simp only [Decode.field]
    split
    · exact pure _
    · exact map (hnested inner) _
  | objectArray inner => exact map (collection hle header (element hnested inner)) _
  | objectList inner =>
    refine map (collection hle header (required ?_)) _
    split
    · exact tagged hnested inner
    · exact element hnested inner
  | objectMap k inner =>
    exact map (collection hle header (bind (payload (.element hle k)) fun key =>
      map (required (tagged hnested inner)) _)) _
  | interface proxy =>
    simp only [Decode.field]
    split
    · exact pure _
    · exact map (payload (.refl _)) _

/-! ## Fields and frames -/

variable {schema : Schema} (hkinds : ∀ entry ∈ schema.kinds, entry.2.Tolerant limits limits')
  (hnested : ∀ type, Upheld (nested type) (nested' type))
include hkinds hnested

/-- A field of a frame is upheld, whether it is read, passed over or unknown. -/
lemma fieldInto (stop : Nat) (o : Object) :
    Upheld (fieldInto env limits nested schema stop o)
      (fieldInto env limits' nested' schema stop o) := by
  refine bind (onReader _ (.refl _)) fun header => ?_
  dsimp only
  split
  · exact throw _ _
  · cases hentry : schema.entry? header.id with
    | none => exact bind (tell _) fun _ => map (seek _) _
    | some registered =>
      obtain ⟨entry, kind⟩ := registered
      have hkind := hkinds _ (entry?_mem hentry)
      exact bind (orSkip (within _ (field hle hkind hnested _ _ _)) _ _ o) fun _ => map (seek _) _

/-- The fields of a frame are upheld. -/
lemma fieldsInto (stop fuel : Nat) (o : Object) :
    Upheld (fieldsInto env limits nested schema stop fuel o)
      (fieldsInto env limits' nested' schema stop fuel o) := by
  induction fuel generalizing o with
  | zero => exact pure o
  | succ fuel ih =>
    refine bind position fun pos => ?_
    split
    · exact bind (fieldInto hle hkinds hnested stop o) fun o => ih o
    · exact pure o

/-- A frame is upheld. -/
lemma objectFrame (fresh : Object) :
    Upheld (objectFrame env limits nested schema fresh)
      (objectFrame env limits' nested' schema fresh) := by
  have hmax := hle.bytes_le
  refine bind (onReader _ (.refl _)) fun stop => bind position fun start => ?_
  dsimp only
  split
  · exact throw (.field (.limit ⟨.objectBytes, limits.maxObjectBytes, stop - start⟩)) _
  · rw [if_neg (by omega)]
    exact bind (within stop (fieldsInto hle hkinds hnested stop _ fresh)) fun o => map (seek stop) _

end Upheld

end Decode

/-- Objects are read under larger limits, with no fewer levels left. -/
theorem decodeObject_upheld {env : Environment} {limits limits' : Limits}
    (hle : limits.AtMost limits') (henv : env.Tolerant limits limits') {levels levels' : Nat}
    (hlevels : levels ≤ levels') (type : String) :
    Decode.Upheld (decodeObject env limits levels type)
      (decodeObject env limits' levels' type) := by
  induction levels generalizing levels' type with
  | zero =>
    -- without a level left, reading fails for want of a schema, of an instance or of a level
    intro s
    have hfails : ∃ e, decodeObject env limits 0 type s = .error e s := by
      unfold decodeObject
      cases env.schemaOf type with
      | error e => exact ⟨_, rfl⟩
      | ok schema =>
        show ∃ e, (Decode.described schema.construct >>= fun _ => throw _ : Decode Object) s = _
        cases schema.construct <;> exact ⟨_, rfl⟩
    obtain ⟨e, hrun⟩ := hfails
    simp only [hrun, List.suffix_rfl]
  | succ levels ih =>
    obtain ⟨levels', rfl⟩ : ∃ n, levels' = n + 1 := ⟨levels' - 1, by omega⟩
    unfold decodeObject
    cases hschema : env.schemaOf type with
    | error e => exact .throw (.schema e) _
    | ok schema =>
      show Decode.Upheld
        (Decode.described schema.construct >>= fun fresh =>
          Decode.objectFrame env limits (decodeObject env limits levels) schema fresh)
        (Decode.described schema.construct >>= fun fresh =>
          Decode.objectFrame env limits' (decodeObject env limits' levels') schema fresh)
      exact .bind (.described _) fun fresh =>
        .objectFrame hle (henv type schema hschema) (fun inner => ih (by omega) inner) fresh

/-- Raising limits does not change what was read without loss. If an object is read under some
limits, and no field in it was passed over, it is read under larger limits as well: with the same
value, with the same report, and up to the same position.

That an environment is tolerant is a condition only on kinds of values that a user adds. Every kind
of the format is.

**Proof sketch.** A limit is checked in the header of an object, when reading goes one level
deeper, and with every count. What passes a check under some limits passes it under larger ones.
What does not pass makes a field fail, and the field that is passed over then stays in the report
to the end, or it makes the object fail. So in a run without loss every check was passed, and the
run under larger limits goes the same way. -/
theorem decode_raise {env : Environment} {limits limits' : Limits} (hle : limits.AtMost limits')
    (henv : env.Tolerant limits limits') {type : String} {r r' : Reader} {o : Object}
    {report : Report} (h : decode env limits type r = .ok (o, report) r')
    (hlossless : report.Lossless) :
    decode env limits' type r = .ok (o, report) r' := by
  have hupheld := decodeObject_upheld hle henv hle.depth_le type ⟨r, []⟩
  unfold decode at h ⊢
  cases hrun : decodeObject env limits limits.maxDepth type ⟨r, []⟩ with
  | error e s =>
    rw [hrun] at h
    cases h
  | ok o' s =>
    rw [hrun] at h hupheld
    cases h
    have hevents : Report.Lossless s.events := fun type field id reason hmem =>
      hlossless type field id reason (List.mem_reverse.mpr hmem)
    rw [hupheld.2 hevents]

namespace Sample

/-- Types with numbers that are refused above the limit on elements. -/
def flakies : Environment :=
  .ofTypes [flakyBox ""] .empty

/-- A frame of such a number and of another one. -/
def flakyFrame : Array UInt8 :=
  #[0x45, 0x4F, 16, 0, 1, 0, 4, 0, 7, 0, 0, 0, 3, 0, 4, 0, 9, 0, 0, 0]

/-- The numbers in the frame. -/
def flakyRead : Object :=
  ⟨[(1, .value (some (.int 7))), (2, .value (some (.int 0))), (3, .value (some (.int 9)))]⟩

/-- A larger limit on elements refuses fewer numbers, and makes no other numbers of them. -/
lemma flaky_tolerant {limits limits' : Limits} (hle : limits.AtMost limits') :
    (ValueKind.refined flaky).Tolerant limits limits' := by
  rintro type v a h
  have hmax := hle.elements_le
  cases v with
  | int n =>
    have hread : readFlaky limits n = .ok a := h
    show readFlaky limits' n = .ok a
    unfold readFlaky at hread ⊢
    split at hread
    · rwa [if_pos ‹_›]
    · rw [if_neg ‹_›]
      split at hread
      · cases hread
      · rwa [if_neg (by omega)]
  | _ => exact h

end Sample

/-- The number in the frame is as large as the smaller limit on elements. -/
theorem decode_raise_flaky :
    Limits.AtMost ⟨1, 7, 16⟩ ⟨2, 8, 17⟩ ∧ Sample.flakies.Tolerant ⟨1, 7, 16⟩ ⟨2, 8, 17⟩ ∧
      decode Sample.flakies ⟨1, 7, 16⟩ "FlakyBox" (.ofBytes Sample.flakyFrame) =
        .ok (Sample.flakyRead, []) ⟨Sample.flakyFrame, 20, 20⟩ ∧
      decode Sample.flakies ⟨2, 8, 17⟩ "FlakyBox" (.ofBytes Sample.flakyFrame) =
        .ok (Sample.flakyRead, []) ⟨Sample.flakyFrame, 20, 20⟩ := by
  have hle : Limits.AtMost ⟨1, 7, 16⟩ ⟨2, 8, 17⟩ := ⟨by decide, by decide, by decide⟩
  have hflaky := Sample.flaky_tolerant hle
  have hbox : (Sample.flakyBox "").Declares (FieldKind.Tolerant ⟨1, 7, 16⟩ ⟨2, 8, 17⟩) :=
    And.intro hflaky (And.intro hflaky (And.intro trivial trivial))
  have henv : Sample.flakies.Tolerant ⟨1, 7, 16⟩ ⟨2, 8, 17⟩ :=
    Environment.tolerant_ofTypes (List.forall_mem_singleton.mpr hbox) .empty
  have hread : decode Sample.flakies ⟨1, 7, 16⟩ "FlakyBox" (.ofBytes Sample.flakyFrame) =
      .ok (Sample.flakyRead, []) ⟨Sample.flakyFrame, 20, 20⟩ := rfl
  exact ⟨hle, henv, hread, decode_raise hle henv hread fun _ _ _ _ h => nomatch h⟩

end TaggedParcel
