import TaggedParcel.Proofs.Object.Member

set_option relaxedAutoImplicit false
set_option autoImplicit false

/-!
# Reading objects is local

An object is read from the bytes of its frame alone. Where the frame lies, what stands around
it, and what was reported before do not matter: they do not change the object, nor how many
bytes are consumed, nor whether reading fails fatally. The proof is an induction on the levels
of nesting that are left, and inside a frame one on the number of its fields.

## Main definitions

* `FieldKind.ReadsAlike` — kinds whose payloads are read the same in two types.
* `Decode.fields` — the fields of a frame up to the limit in force.

## Main results

* `Decode.fieldEffect_matched` — the same payload has the same effect in two frames.
* `decodeObject_blind`, `decodeObject_local` — reading objects is blind and local.
-/

namespace TaggedParcel

/-- The payloads of a kind are read the same in fields of two types. Only kinds with a meaning
of their own see the name of the type, and may read differently in another one. -/
def FieldKind.ReadsAlike (type₁ type₂ : String) : FieldKind → Prop
  | .value (.refined kind) _ =>
    ∀ limits v, kind.ofPayload type₁ limits v = kind.ofPayload type₂ limits v
  | _ => True

/-- Payloads of one type are read alike. -/
lemma FieldKind.ReadsAlike.refl (type : String) (kind : FieldKind) :
    kind.ReadsAlike type type := by
  unfold FieldKind.ReadsAlike
  split
  · exact fun _ _ => rfl
  · exact trivial

namespace Decode

variable {env : Environment} {limits : Limits} {nested : ObjectReader}

/-! ## Blindness -/

namespace Blind

/-- Failing at once is blind. -/
lemma throw {α : Type} (e : CodecError) : Blind (MonadExcept.throw e : Decode α) :=
  fun _ _ => rfl

/-- What fails at once is blind, whatever would follow. -/
lemma throw_bind {α β : Type} (e : CodecError) (next : α → Decode β) :
    Blind (MonadExcept.throw e >>= next) :=
  fun _ _ => rfl

/-- Reporting is blind. -/
lemma tell (event : Diagnostic) : Blind (tell event) :=
  fun _ _ => rfl

/-- Asking for a description is blind. -/
lemma described {α : Type} (result : Except SchemaError α) : Blind (described result) := by
  cases result with
  | ok a => exact pure a
  | error e => exact throw _

/-- Catching the failures of a blind step is blind. -/
lemma orSkip {body : Decode Member} (h : Blind body) (type : String) (entry : FieldDescriptor)
    (o : Object) : Blind (orSkip type entry o body) := by
  intro r events
  simp only [Decode.orSkip]
  rw [h r events]
  cases body ⟨r, []⟩ with
  | ok m s => rfl
  | error e s =>
    dsimp only
    split <;> rfl

/-- A field is blind if objects are. -/
lemma field (hblind : ∀ inner, Blind (nested inner)) (type : String) (header : FieldHeader)
    (entry : FieldDescriptor) (kind : FieldKind) :
    Blind (field env limits nested type header entry kind) := by
  intro r events
  rw [field_apply, field_apply,
    (member_assembled env limits nested type header entry kind).blind fun inner _ => hblind inner]
  cases member env limits nested type header entry kind ⟨r, []⟩ with
  | ok m s => simp only [List.append_assoc]
  | error e s => rfl

/-- A field of a frame is blind if objects are. -/
lemma fieldInto (hblind : ∀ inner, Blind (nested inner)) (schema : Schema) (stop : Nat)
    (o : Object) : Blind (fieldInto env limits nested schema stop o) := by
  unfold Decode.fieldInto
  refine bind (onReader _ _) fun header => ?_
  dsimp only
  split
  · exact throw_bind _ _
  · cases schema.entry? header.id with
    | none =>
      exact bind (tell _) fun _ => bind (pure o) fun _ => bind (onReader _ _) fun _ => pure _
    | some registered =>
      exact bind (orSkip (within (field hblind _ _ _ _) _) _ _ _) fun _ =>
        bind (onReader _ _) fun _ => pure _

/-- The fields of a frame are blind if objects are. -/
lemma fieldsInto (hblind : ∀ inner, Blind (nested inner)) (schema : Schema) (stop fuel : Nat)
    (o : Object) : Blind (fieldsInto env limits nested schema stop fuel o) := by
  induction fuel generalizing o with
  | zero => exact pure o
  | succ fuel ih =>
    refine bind position fun pos => ?_
    split
    · exact bind (fieldInto hblind schema stop o) fun o => ih o
    · exact pure o

/-- A frame is blind if objects are. -/
lemma objectFrame (hblind : ∀ inner, Blind (nested inner)) (schema : Schema) (fresh : Object) :
    Blind (objectFrame env limits nested schema fresh) := by
  refine bind (onReader _ _) fun stop => bind position fun start => ?_
  dsimp only
  split
  · exact throw_bind _ _
  · exact bind (within (fieldsInto hblind schema stop _ fresh) stop) fun o =>
      bind (onReader _ _) fun _ => pure o

end Blind

/-! ## Locality -/

/-- Where the payloads of a kind are read the same in two types, members are. -/
lemma member_eq (nested : ObjectReader) {type₁ type₂ : String} {header₁ header₂ : FieldHeader}
    (hsize : header₁.size = header₂.size) (entry : FieldDescriptor) {kind : FieldKind}
    (halike : kind.ReadsAlike type₁ type₂) :
    member env limits nested type₁ header₁ entry kind =
      member env limits nested type₂ header₂ entry kind := by
  have hnull : header₁.isNull = header₂.isNull := by
    rw [FieldHeader.isNull, FieldHeader.isNull, hsize]
  cases kind with
  | value kind optional =>
    have hread : kind.read type₁ limits = kind.read type₂ limits := by
      cases kind with
      | refined kind =>
        have hpayload : ∀ limits v, kind.ofPayload type₁ limits v =
            kind.ofPayload type₂ limits v := halike
        simp only [ValueKind.read, hpayload]
      | _ => rfl
    simp only [member, single, hnull, hsize, hread]
  | _ => simp only [member, field, collection, hnull]

/-- The same payload has the same effect on the object in two frames, or fails fatally in both,
if the field is registered alike or is unknown in both. -/
theorem fieldEffect_matched (hlocal : ∀ inner, Local (nested inner)) {schema₁ schema₂ : Schema}
    {bytes₁ bytes₂ : Array UInt8} {header₁ header₂ : FieldHeader}
    (hr₁ : (header₁.window bytes₁).Sound) (hr₂ : (header₂.window bytes₂).Sound)
    (hahead : (header₁.window bytes₁).ahead = (header₂.window bytes₂).ahead)
    (hsize : header₁.size = header₂.size)
    (hentry : schema₁.entry? header₁.id = schema₂.entry? header₂.id)
    (halike : ∀ entry kind, schema₁.entry? header₁.id = some (entry, kind) →
      kind.ReadsAlike schema₁.name schema₂.name) :
    (∃ effect₁ effect₂, fieldEffect env limits nested schema₁ bytes₁ header₁ = .ok effect₁ ∧
      fieldEffect env limits nested schema₂ bytes₂ header₂ = .ok effect₂ ∧
      effect₁.member? = effect₂.member?) ∨
    ∃ e₁ e₂, fieldEffect env limits nested schema₁ bytes₁ header₁ = .error e₁ ∧
      fieldEffect env limits nested schema₂ bytes₂ header₂ = .error e₂ := by
  unfold fieldEffect
  rw [← hentry]
  cases hregistered : schema₁.entry? header₁.id with
  | none => exact .inl ⟨_, _, rfl, rfl, rfl⟩
  | some registered =>
    obtain ⟨entry, kind⟩ := registered
    have hmember := member_assembled env limits nested schema₁.name header₁ entry kind
    have hmatch := hmember.local (fun inner _ => hlocal inner) _ _ [] [] hr₁ hr₂ hahead
    dsimp only
    rw [← member_eq nested hsize entry (halike entry kind hregistered)]
    generalize member env limits nested schema₁.name header₁ entry kind
      ⟨header₁.window bytes₁, []⟩ = result₁, member env limits nested schema₁.name header₁ entry
      kind ⟨header₂.window bytes₂, []⟩ = result₂ at hmatch ⊢
    cases hmatch with
    | ok m n hn told₁ told₂ => exact .inl ⟨_, _, rfl, rfl, rfl⟩
    | error e₁ e₂ hfatal n₁ n₂ hn₁ hn₂ told₁ told₂ =>
      dsimp only
      rw [← hfatal]
      by_cases h : e₁.isFatal
      · rw [if_pos h, if_pos h]
        exact .inr ⟨_, _, rfl, rfl⟩
      · rw [if_neg h, if_neg h]
        exact .inl ⟨_, _, rfl, rfl, rfl⟩

/-- The fields of a frame up to the limit in force. -/
def fields (env : Environment) (limits : Limits) (nested : ObjectReader) (schema : Schema)
    (size : Nat) (fresh : Object) : Decode Object :=
  fun s => fieldsInto env limits nested schema s.reader.limit size fresh s

variable {r : Reader} {schema : Schema}

/-- At the end of a frame the object is done. -/
lemma fieldsInto_end (env : Environment) (limits : Limits) (nested : ObjectReader)
    (schema : Schema) (fuel : Nat) (o : Object) (events : List Diagnostic)
    (hpos : r.pos = r.limit) :
    fieldsInto env limits nested schema r.limit fuel o ⟨r, events⟩ = .ok o ⟨r, events⟩ := by
  cases fuel with
  | zero => rfl
  | succ fuel =>
    show (if r.pos < r.limit then _ else _ : Decode Object) ⟨r, events⟩ = _
    rw [if_neg (by omega)]
    rfl

/-- Before the end of a frame one more field is read. -/
lemma fieldsInto_step (env : Environment) (limits : Limits) (nested : ObjectReader)
    (schema : Schema) (fuel : Nat) (o : Object) (events : List Diagnostic)
    (hpos : r.pos < r.limit) :
    fieldsInto env limits nested schema r.limit (fuel + 1) o ⟨r, events⟩ =
      match fieldInto env limits nested schema r.limit o ⟨r, events⟩ with
      | .ok o' s => fieldsInto env limits nested schema r.limit fuel o' s
      | .error e s => .error e s := by
  show (if r.pos < r.limit then _ else _ : Decode Object) ⟨r, events⟩ = _
  rw [if_pos hpos, bind_apply]
  cases fieldInto env limits nested schema r.limit o ⟨r, events⟩ <;> rfl

/-- The fields of a frame are read by a local computation.

**Proof sketch.** Induction on the fuel. Where the bytes ahead are the same, the same header is
read. Either it ends both frames, or its payload has the same effect in both, and the fields
behind it are read from the same bytes. -/
theorem fields_local (env : Environment) (limits : Limits) (hblind : ∀ inner, Blind (nested inner))
    (hlocal : ∀ inner, Local (nested inner)) (schema : Schema) (fuel : Nat) (o : Object) :
    Local (fields env limits nested schema fuel o) := by
  intro r₁ r₂ events₁ events₂ hr₁ hr₂ hahead
  show Matched r₁ r₂ (fieldsInto env limits nested schema r₁.limit fuel o ⟨r₁, events₁⟩)
    (fieldsInto env limits nested schema r₂.limit fuel o ⟨r₂, events₂⟩)
  induction fuel generalizing r₁ r₂ o events₁ events₂ with
  | zero => exact .ok o 0 (Nat.zero_le _) events₁ events₂
  | succ fuel ih =>
    have hlimit₁ := Reader.limit_eq hr₁
    have hlimit₂ := Reader.limit_eq hr₂
    have hlength := congrArg List.length hahead
    by_cases hempty : r₁.ahead.length = 0
    · have hend₁ : r₁.pos = r₁.limit := by omega
      have hend₂ : r₂.pos = r₂.limit := by omega
      rw [fieldsInto_end _ _ _ _ _ _ _ hend₁, fieldsInto_end _ _ _ _ _ _ _ hend₂]
      exact .ok o 0 (Nat.zero_le _) events₁ events₂
    · have hpos₁ : r₁.pos < r₁.limit := by omega
      have hpos₂ : r₂.pos < r₂.limit := by omega
      rw [fieldsInto_step _ _ _ _ _ _ _ hpos₁, fieldsInto_step _ _ _ _ _ _ _ hpos₂]
      rcases Read.fieldHeader_matched hr₁ hr₂ hahead with
        ⟨header₁, header₂, n, h4, hn, hstart₁, hstart₂, hid, hsize, hread₁, hread₂⟩ |
        ⟨c₁, c₂, n, hn, hread₁, hread₂⟩
      · have hiff₁ := FieldHeader.stop_le_iff hr₁ hstart₁
        have hiff₂ := FieldHeader.stop_le_iff hr₂ hstart₂
        by_cases hroom : n + header₁.size ≤ r₁.ahead.length
        · have hstop₁ : header₁.stop ≤ r₁.limit := hiff₁.mpr hroom
          have hstop₂ : header₂.stop ≤ r₂.limit := hiff₂.mpr (by omega)
          have heq₁ := FieldHeader.stop_eq hr₁ hstop₁
          have heq₂ := FieldHeader.stop_eq hr₂ hstop₂
          obtain ⟨hwindow₁, hpayload₁⟩ := FieldHeader.window_ahead hr₁ hstart₁ hstop₁
          obtain ⟨hwindow₂, hpayload₂⟩ := FieldHeader.window_ahead hr₂ hstart₂ hstop₂
          have hinto₁ := @fieldInto_cases env limits nested r₁ schema hblind hlocal hr₁ header₁ n
            hn hstart₁ hread₁ hstop₁ o events₁
          have hinto₂ := @fieldInto_cases env limits nested r₂ schema hblind hlocal hr₂ header₂ n
            (by omega) hstart₂ hread₂ hstop₂ o events₂
          rcases @fieldEffect_matched env limits nested hlocal schema schema r₁.bytes r₂.bytes
            header₁ header₂ hwindow₁ hwindow₂ (by rw [hpayload₁, hpayload₂, hahead, hsize]) hsize
            (by rw [hid]) (fun _ kind _ => .refl _ kind) with
            ⟨effect₁, effect₂, heffect₁, heffect₂, hmember⟩ | ⟨e₁, e₂, heffect₁, heffect₂⟩
          · -- the fields behind this one are read from the same bytes, into the same object
            have hobject : effect₂.apply header₂.id o = effect₁.apply header₁.id o := by
              rw [FieldEffect.apply, FieldEffect.apply, hmember, hid]
            rw [heffect₁] at hinto₁
            rw [heffect₂] at hinto₂
            rw [hinto₁, hinto₂, hobject,
              show header₁.stop - r₁.pos = n + header₁.size by omega,
              show header₂.stop - r₂.pos = n + header₁.size by omega]
            have hrest := ih (effect₁.apply header₁.id o) (r₁.advance (n + header₁.size))
              (r₂.advance (n + header₁.size)) (effect₁.report.reverse ++ events₁)
              (effect₂.report.reverse ++ events₂) (hr₁.advance hroom)
              (hr₂.advance (by omega))
              (by rw [Reader.ahead_advance, Reader.ahead_advance, hahead])
            exact hrest.behind hroom (by omega)
          · rw [heffect₁] at hinto₁
            rw [heffect₂] at hinto₂
            obtain ⟨hfatal₁, k₁, told₁, hk₁, hinto₁⟩ := hinto₁
            obtain ⟨hfatal₂, k₂, told₂, hk₂, hinto₂⟩ := hinto₂
            rw [hinto₁, hinto₂]
            exact .error e₁ e₂ (hfatal₁.trans hfatal₂.symm) k₁ k₂ hk₁ hk₂ told₁ told₂
        · have hstop₁ : r₁.limit < header₁.stop := by omega
          have hstop₂ : r₂.limit < header₂.stop := by omega
          rw [fieldInto_overread hread₁ hstop₁, fieldInto_overread hread₂ hstop₂]
          exact .error (.corruption (.overread header₁.stop r₁.limit))
            (.corruption (.overread header₂.stop r₂.limit)) rfl n n hn (by omega) events₁ events₂
      · rw [fieldInto_corrupt hread₁, fieldInto_corrupt hread₂]
        exact .error (.corruption c₁) (.corruption c₂) rfl n n hn (by omega) events₁ events₂

/-- Behind its header, an object is its fields, framed by the size that the header promises. -/
lemma objectFrame_apply (hr : r.Sound) {n size : Nat} (hn : n + size ≤ r.ahead.length)
    (hread : Read.objectHeader r = .ok (r.pos + n + size) (r.advance n)) (fresh : Object)
    (events : List Diagnostic) :
    objectFrame env limits nested schema fresh ⟨r, events⟩ =
      if size > limits.maxObjectBytes then
        .error (.field (.limit ⟨.objectBytes, limits.maxObjectBytes, size⟩))
          ⟨r.advance n, events⟩
      else framed size (fields env limits nested schema size fresh) ⟨r.advance n, events⟩ := by
  have hsize : r.pos + n + size - (r.pos + n) = size := by omega
  have hroom : size ≤ (r.advance n).ahead.length := by
    rw [Reader.ahead_advance, List.length_drop]
    omega
  have hadvance := hr.advance (show n ≤ r.ahead.length by omega)
  unfold objectFrame
  rw [bind_apply, frame_apply, hread]
  dsimp only
  rw [bind_apply]
  simp only [position, Reader.advance_pos, hsize]
  by_cases hlarge : size > limits.maxObjectBytes
  · rw [if_pos hlarge, if_pos hlarge]
    rfl
  · rw [if_neg hlarge, if_neg hlarge]
    show _ = (within (r.pos + n + size) (fields env limits nested schema size fresh) >>= fun a =>
      seek (r.pos + n + size) >>= fun _ => pure a) ⟨r.advance n, events⟩
    rw [bind_apply, bind_apply]
    have hwithin₁ := within_narrow (fieldsInto env limits nested schema (r.pos + n + size) size
      fresh) hadvance hroom events
    have hwithin₂ := within_narrow (fields env limits nested schema size fresh) hadvance hroom
      events
    rw [Reader.advance_pos] at hwithin₁ hwithin₂
    rw [hwithin₁, hwithin₂]
    rfl

/-- A frame is local if objects are blind and local. -/
theorem objectFrame_local (hblind : ∀ inner, Blind (nested inner))
    (hlocal : ∀ inner, Local (nested inner)) (schema : Schema) (fresh : Object) :
    Local (objectFrame env limits nested schema fresh) := by
  intro r₁ r₂ events₁ events₂ hr₁ hr₂ hahead
  have hlength := congrArg List.length hahead
  rcases Read.objectHeader_matched hr₁ hr₂ hahead with
    ⟨n, size, hn, hread₁, hread₂⟩ | ⟨c₁, c₂, n, hn, hread₁, hread₂⟩
  · rw [objectFrame_apply hr₁ hn hread₁, objectFrame_apply hr₂ (by omega) hread₂]
    have hn₁ : n ≤ r₁.ahead.length := by omega
    have hn₂ : n ≤ r₂.ahead.length := by omega
    split
    · exact .error _ _ rfl n n hn₁ hn₂ events₁ events₂
    · have hframed := (fields_local env limits hblind hlocal schema size fresh).framed size
        (r₁.advance n) (r₂.advance n) events₁ events₂ (hr₁.advance hn₁) (hr₂.advance hn₂)
        (by rw [Reader.ahead_advance, Reader.ahead_advance, hahead])
      exact hframed.behind hn₁ hn₂
  · unfold objectFrame
    rw [bind_apply, bind_apply, frame_apply, frame_apply, hread₁, hread₂]
    exact .error (.corruption c₁) (.corruption c₂) rfl n n hn (by omega) events₁ events₂

/-- Asking for a description is local. -/
lemma Local.described {α : Type} (result : Except SchemaError α) : Local (described result) := by
  cases result with
  | ok a => exact .pure a
  | error e =>
    exact fun _ _ events₁ events₂ _ _ _ =>
      .error (.schema e) (.schema e) rfl 0 0 (Nat.zero_le _) (Nat.zero_le _) events₁ events₂

end Decode

/-- Reading an object adds to the report without looking at it. -/
theorem decodeObject_blind (env : Environment) (limits : Limits) (levels : Nat) (type : String) :
    Decode.Blind (decodeObject env limits levels type) := by
  induction levels generalizing type with
  | zero =>
    exact .bind (.described _) fun schema => .bind (.described _) fun _ => .throw _
  | succ levels ih =>
    exact .bind (.described _) fun schema => .bind (.described _) fun fresh =>
      .objectFrame ih schema fresh

/-- Reading an object is local: the bytes of the frame decide what is read, and whether reading
fails fatally. -/
theorem decodeObject_local (env : Environment) (limits : Limits) (levels : Nat) (type : String) :
    Decode.Local (decodeObject env limits levels type) := by
  induction levels generalizing type with
  | zero =>
    refine .bind (.described _) fun schema => .bind (.described _) fun _ => ?_
    exact fun _ _ events₁ events₂ _ _ _ =>
      .error _ _ rfl 0 0 (Nat.zero_le _) (Nat.zero_le _) events₁ events₂
  | succ levels ih =>
    exact .bind (.described _) fun schema => .bind (.described _) fun fresh =>
      Decode.objectFrame_local (fun inner => decodeObject_blind env limits levels inner) ih
        schema fresh

end TaggedParcel
