import TaggedParcel.Proofs.Object.Fold

set_option relaxedAutoImplicit false
set_option autoImplicit false

/-!
# Fields do not depend on one another

What is read of a field depends on the payloads under its id and on how it is registered, and on
nothing else: other fields, the order of the ids, the form of the headers, the place of the frame
and the rest of the type may all differ. This is what makes old and new versions of a type read
each other's bytes.

## Main definitions

* `FrameOutline.payloads` — the payloads of a frame under an id.
* `Schema.RegisterAlike` — schemas that register an id in the same way.

## Main results

* `decode_get?_congr` — the same payloads under an id give the same member.
-/

namespace TaggedParcel

/-- The payloads of a frame under an id, each with its size, in the order of the bytes. -/
def FrameOutline.payloads (frame : FrameOutline) (bytes : Array UInt8) (id : UInt16) :
    List (Nat × List UInt8) :=
  (frame.headers.filter fun header => header.id = id).map fun header =>
    (header.size, (header.window bytes).ahead)

/-- Two schemas have the same field under an id, and register it with the same kind, whose
payloads are read the same in both types. -/
def Schema.RegisterAlike (schema₁ schema₂ : Schema) (id : UInt16) : Prop :=
  ∃ entry kind, schema₁.entry? id = some (entry, kind) ∧
    schema₂.entry? id = some (entry, kind) ∧ kind.ReadsAlike schema₁.name schema₂.name

namespace FieldEffect

/-- The last member under an id is the last one of the fields with that id. -/
lemma lastMember?_eq_foldr (id : UInt16) (fields : List (FieldHeader × FieldEffect)) :
    lastMember? id fields =
      ((fields.filter fun field => field.1.id = id).map fun field => field.2.member?).foldr
        (fun member last => last.or member) none := by
  induction fields with
  | nil => rfl
  | cons field rest ih =>
    rw [lastMember?, ih]
    by_cases h : field.1.id = id
    · rw [if_pos h, List.filter_cons_of_pos (by simpa using h)]
      rfl
    · rw [if_neg h, List.filter_cons_of_neg (by simpa using h), Option.or_none]

end FieldEffect

/-- Lists whose items agree in one respect agree in another one, if the first decides the
second. -/
lemma map_eq_of_map_eq {α β γ δ : Type} {f₁ : α → γ} {f₂ : β → γ} {g₁ : α → δ} {g₂ : β → δ} :
    ∀ {l₁ : List α} {l₂ : List β}, (∀ a ∈ l₁, ∀ b ∈ l₂, f₁ a = f₂ b → g₁ a = g₂ b) →
      l₁.map f₁ = l₂.map f₂ → l₁.map g₁ = l₂.map g₂
  | [], [], _, _ => rfl
  | [], _ :: _, _, h => by cases h
  | _ :: _, [], _, h => by cases h
  | a :: l₁, b :: l₂, hdecides, h => by
    rw [List.map_cons, List.map_cons] at h
    injection h with hhead htail
    have hrest := map_eq_of_map_eq (fun a ha b hb =>
      hdecides a (List.mem_cons_of_mem _ ha) b (List.mem_cons_of_mem _ hb)) htail
    rw [List.map_cons, List.map_cons, hrest, hdecides a (by simp) b (by simp) hhead]

/-- The payloads under an id are those of the fields with that id. -/
lemma FrameOutline.payloads_eq {frame : FrameOutline} {fields : List (FieldHeader × FieldEffect)}
    (h : fields.map Prod.fst = frame.headers) (bytes : Array UInt8) (id : UInt16) :
    frame.payloads bytes id =
      (fields.filter fun field => field.1.id = id).map fun field =>
        (field.1.size, (field.1.window bytes).ahead) := by
  rw [payloads, ← h, List.filter_map, List.map_map]
  rfl

/-- Payloads of one size and content bring the same member, if their fields are registered alike. -/
lemma Decode.member?_congr {env : Environment} {limits : Limits} {nested : ObjectReader}
    (hlocal : ∀ inner, Local (nested inner)) {schema₁ schema₂ : Schema}
    {bytes₁ bytes₂ : Array UInt8} {field₁ field₂ : FieldHeader × FieldEffect} {id : UInt16}
    (halike : schema₁.RegisterAlike schema₂ id) (hid₁ : field₁.1.id = id) (hid₂ : field₂.1.id = id)
    (hwindow₁ : (field₁.1.window bytes₁).Sound) (hwindow₂ : (field₂.1.window bytes₂).Sound)
    (heffect₁ : fieldEffect env limits nested schema₁ bytes₁ field₁.1 = .ok field₁.2)
    (heffect₂ : fieldEffect env limits nested schema₂ bytes₂ field₂.1 = .ok field₂.2)
    (hsame : (field₁.1.size, (field₁.1.window bytes₁).ahead) =
      (field₂.1.size, (field₂.1.window bytes₂).ahead)) :
    field₁.2.member? = field₂.2.member? := by
  obtain ⟨entry, kind, hentry₁, hentry₂, hreads⟩ := halike
  obtain ⟨hsize, hahead⟩ := Prod.mk.inj hsame
  have hentry : schema₁.entry? field₁.1.id = schema₂.entry? field₂.1.id := by
    rw [hid₁, hid₂, hentry₁, hentry₂]
  rcases fieldEffect_matched hlocal hwindow₁ hwindow₂ hahead hsize hentry
    (fun entry' kind' h => by
      rw [hid₁, hentry₁] at h
      cases h
      exact hreads) with
    ⟨effect₁, effect₂, hmatch₁, hmatch₂, hmember⟩ | ⟨e₁, e₂, hmatch₁, hmatch₂⟩
  · rw [heffect₁] at hmatch₁
    rw [heffect₂] at hmatch₂
    cases hmatch₁
    cases hmatch₂
    exact hmember
  · -- both would fail, but they were read
    rw [heffect₁] at hmatch₁
    cases hmatch₁

/-- Reading is local to each field. Where an object of one type is read from one place, and an
object of another type from another place, the members under an id that is registered alike in
both are the same, if both types start with the same member and the payloads under the id are
the same. Whatever else is in the frames and in the types does not matter.

That payloads are read alike in both types is true of every kind of the format, which never sees
the name of a type. It is a condition only on kinds that a user adds. -/
theorem decode_get?_congr {env : Environment} {limits : Limits} {type₁ type₂ : String}
    {r₁ r₁' r₂ r₂' : Reader} {o₁ o₂ : Object} {report₁ report₂ : Report}
    {schema₁ schema₂ : Schema} {fresh₁ fresh₂ : Object} {frame₁ frame₂ : FrameOutline}
    {id : UInt16} (hr₁ : r₁.Sound) (hr₂ : r₂.Sound)
    (h₁ : decode env limits type₁ r₁ = .ok (o₁, report₁) r₁')
    (h₂ : decode env limits type₂ r₂ = .ok (o₂, report₂) r₂')
    (hschema₁ : env.schemaOf type₁ = .ok schema₁) (hschema₂ : env.schemaOf type₂ = .ok schema₂)
    (halike : schema₁.RegisterAlike schema₂ id)
    (hfresh₁ : schema₁.construct = .ok fresh₁) (hfresh₂ : schema₂.construct = .ok fresh₂)
    (hinitial : fresh₁.get? id = fresh₂.get? id)
    (hout₁ : Read.outline r₁ = .ok frame₁ r₁') (hout₂ : Read.outline r₂ = .ok frame₂ r₂')
    (hpayloads : frame₁.payloads r₁.bytes id = frame₂.payloads r₂.bytes id) :
    o₁.get? id = o₂.get? id := by
  obtain ⟨levels, _, _, _, fields₁, hdepth, hs₁, hf₁, ho₁, hheaders₁, heffects₁, hfold₁⟩ :=
    decode_ok_cases hr₁ h₁
  obtain ⟨levels', _, _, _, fields₂, hdepth', hs₂, hf₂, ho₂, hheaders₂, heffects₂, hfold₂⟩ :=
    decode_ok_cases hr₂ h₂
  have hlevels : levels' = levels := by omega
  rw [hschema₁] at hs₁
  rw [hschema₂] at hs₂
  cases hs₁
  cases hs₂
  rw [hfresh₁] at hf₁
  rw [hfresh₂] at hf₂
  rw [hout₁] at ho₁
  rw [hout₂] at ho₂
  cases hf₁
  cases hf₂
  cases ho₁
  cases ho₂
  subst hlevels
  -- the payloads under the id decide the members that the fields bring
  have hdecides : ∀ field₁ ∈ fields₁.filter fun field => field.1.id = id,
      ∀ field₂ ∈ fields₂.filter fun field => field.1.id = id,
      (field₁.1.size, (field₁.1.window r₁.bytes).ahead) =
        (field₂.1.size, (field₂.1.window r₂.bytes).ahead) →
      field₁.2.member? = field₂.2.member? := by
    intro field₁ hmem₁ field₂ hmem₂ hsame
    obtain ⟨hfield₁, hid₁⟩ := List.mem_filter.mp hmem₁
    obtain ⟨hfield₂, hid₂⟩ := List.mem_filter.mp hmem₂
    obtain ⟨hwindow₁, heffect₁⟩ := heffects₁ field₁ hfield₁
    obtain ⟨hwindow₂, heffect₂⟩ := heffects₂ field₂ hfield₂
    exact Decode.member?_congr (fun inner => decodeObject_local env limits levels' inner) halike
      (of_decide_eq_true hid₁) (of_decide_eq_true hid₂) hwindow₁ hwindow₂ heffect₁ heffect₂ hsame
  have hkeys := hpayloads
  rw [FrameOutline.payloads_eq hheaders₁, FrameOutline.payloads_eq hheaders₂] at hkeys
  have hmembers := map_eq_of_map_eq hdecides hkeys
  rw [show o₁ = (FieldEffect.fold fields₁ (fresh₁, [])).1 from congrArg Prod.fst hfold₁,
    show o₂ = (FieldEffect.fold fields₂ (fresh₂, [])).1 from congrArg Prod.fst hfold₂,
    FieldEffect.get?_fold, FieldEffect.get?_fold, FieldEffect.lastMember?_eq_foldr,
    FieldEffect.lastMember?_eq_foldr, hmembers, hinitial]

namespace Sample

/-- A flaky number. -/
def gauge : TypeDecl :=
  fresh "Gauge" none [.field 1 "level" (.value (.refined flaky) false) {}]

/-- The same number in a later type, which also has another one. -/
def gaugeV2 : TypeDecl :=
  fresh "GaugeV2" none
    [.field 1 "level" (.value (.refined flaky) false) {},
    .field 2 "spread" (plain .int) {}]

/-- The types that the frames below are read as. -/
def gauges : Environment :=
  .ofTypes [gauge, gaugeV2] .empty

/-- The schema of the number. -/
def gaugeSchema : Schema :=
  ⟨⟨"Gauge", [⟨1, "level", .string, .string, none, {}⟩], true⟩,
    [(1, .value (.refined flaky) false)], some ⟨[(1, .value (some (.int 0)))]⟩⟩

/-- The schema of the later type. -/
def gaugeV2Schema : Schema :=
  ⟨⟨"GaugeV2", [⟨1, "level", .string, .string, none, {}⟩,
      ⟨2, "spread", .int, .int, none, {}⟩], true⟩,
    [(1, .value (.refined flaky) false), (2, .value (.plain .int) false)],
    some ⟨[(1, .value (some (.int 0))), (2, .value (some (.int 0)))]⟩⟩

/-- A frame of the number, and behind it a field that no type has. -/
def gaugeFrame : Array UInt8 :=
  #[0x45, 0x4F, 12, 0, 1, 0, 4, 0, 7, 0, 0, 0, 9, 0, 0, 0]

/-- The number in the frame. -/
def gaugeRead : Object :=
  ⟨[(1, .value (some (.int 7)))]⟩

/-- A frame of the later type between other bytes. Here the unknown field comes first, and the size
of the number has a word of its own. -/
def gaugeV2Frame : Array UInt8 :=
  #[0xAA, 0xAA, 0xAA, 0xAA,
    0x45, 0x4F, 16, 0,
    8, 0, 0, 0,
    1, 0, 0xFF, 0xFF, 4, 0, 0, 0, 7, 0, 0, 0,
    0xBB]

/-- The object in the frame. -/
def gaugeV2Read : Object :=
  ⟨[(1, .value (some (.int 7))), (2, .value (some (.int 0)))]⟩

end Sample

/-- A number of a kind with a meaning of its own is the same in two types. -/
theorem decode_get?_congr_gauge :
    decode Sample.gauges .small "Gauge" (.ofBytes Sample.gaugeFrame) =
      .ok (Sample.gaugeRead, [.unknownField "Gauge" 9 0]) ⟨Sample.gaugeFrame, 16, 16⟩ ∧
    decode Sample.gauges .small "GaugeV2" ⟨Sample.gaugeV2Frame, 4, 25⟩ =
      .ok (Sample.gaugeV2Read, [.unknownField "GaugeV2" 8 0]) ⟨Sample.gaugeV2Frame, 24, 25⟩ ∧
    Sample.gaugeSchema.RegisterAlike Sample.gaugeV2Schema 1 ∧
    Sample.gaugeRead.get? 1 = Sample.gaugeV2Read.get? 1 := by
  have hschema₁ : Sample.gauges.schemaOf "Gauge" = .ok Sample.gaugeSchema := rfl
  have hschema₂ : Sample.gauges.schemaOf "GaugeV2" = .ok Sample.gaugeV2Schema := rfl
  have hread₁ : decode Sample.gauges .small "Gauge" (.ofBytes Sample.gaugeFrame) =
      .ok (Sample.gaugeRead, [.unknownField "Gauge" 9 0]) ⟨Sample.gaugeFrame, 16, 16⟩ := rfl
  have hread₂ : decode Sample.gauges .small "GaugeV2" ⟨Sample.gaugeV2Frame, 4, 25⟩ =
      .ok (Sample.gaugeV2Read, [.unknownField "GaugeV2" 8 0]) ⟨Sample.gaugeV2Frame, 24, 25⟩ := rfl
  have hout₁ : Read.outline (.ofBytes Sample.gaugeFrame) =
      .ok ⟨16, [⟨0x40001, 1, 4, .fixed, 8⟩, ⟨9, 9, 0, .fixed, 16⟩]⟩
        ⟨Sample.gaugeFrame, 16, 16⟩ := rfl
  have hout₂ : Read.outline ⟨Sample.gaugeV2Frame, 4, 25⟩ =
      .ok ⟨24, [⟨8, 8, 0, .fixed, 12⟩, ⟨0xFFFF0001, 1, 4, .delimited, 20⟩]⟩
        ⟨Sample.gaugeV2Frame, 24, 25⟩ := rfl
  -- the kind does not look at the name of the type
  have halike : Sample.gaugeSchema.RegisterAlike Sample.gaugeV2Schema 1 :=
    ⟨⟨1, "level", .string, .string, none, {}⟩, .value (.refined Sample.flaky) false, rfl, rfl,
      fun _ _ => rfl⟩
  have hsound₁ : (Reader.ofBytes Sample.gaugeFrame).Sound := Reader.sound_ofBytes (by decide)
  have hsound₂ : (⟨Sample.gaugeV2Frame, 4, 25⟩ : Reader).Sound :=
    ⟨by decide, by decide, by decide⟩
  exact ⟨hread₁, hread₂, halike, decode_get?_congr hsound₁ hsound₂ hread₁ hread₂ hschema₁ hschema₂
    halike rfl rfl rfl hout₁ hout₂ rfl⟩

end TaggedParcel
