import Mathlib.Logic.Relation
import TaggedParcel.Proofs.Frame.Scan
import TaggedParcel.Proofs.Object.Fold

set_option relaxedAutoImplicit false
set_option autoImplicit false

/-!
# Reading and scanning agree on frames

A scan walks a frame without knowing its type, and tries to walk the payloads that look like
objects. Reading walks it with the type at hand, and reads the payloads that the type has.
Where no limit is in reach both follow the outline of the frame, whatever the payloads hold: they
find the same fields, or the same corruption.

## Main definitions

* `Environment.Nests` — types whose objects are in the fields of another type.
* `Environment.Usable` — a type that has a fresh instance, and so have all types inside.
* `Report.unknownSizes` — the unknown fields of a report, with their sizes.

## Main results

* `Environment.Usable.not_fatal` — reading a usable type does not fail fatally, if there are
  levels for all bytes.
* `decode_unlimited_cases` — so without limits it is read, or corrupt where its outline is.
* `scan_decode_agree` — the agreement.
-/

namespace TaggedParcel

namespace Environment

variable {env : Environment}

/-- A type has a field with objects of another type. -/
def Nests (env : Environment) (outer inner : String) : Prop :=
  ∃ schema id entry kind, env.schemaOf outer = .ok schema ∧
    schema.entry? id = some (entry, kind) ∧ kind.objectType? = some inner

/-- A type, and every type of the objects inside, is described and has a fresh instance. -/
def Usable (env : Environment) (type : String) : Prop :=
  ∀ inner, Relation.ReflTransGen env.Nests type inner →
    ∃ schema fresh, env.schemaOf inner = .ok schema ∧ schema.construct = .ok fresh

/-- The objects inside a usable type are usable. -/
lemma Usable.nested {outer inner : String} (h : env.Usable outer) (hnests : env.Nests outer inner) :
    env.Usable inner :=
  fun type hinner => h type (.head hnests hinner)

/-- Where there are more levels than bytes, objects of a usable type are never too deep, so
that reading them does not fail fatally.

**Proof sketch.** A fatal failure is that of an object inside a field. Such an object has fewer
bytes than the frame around it, and one level less, and its type is usable. -/
theorem Usable.not_fatal {limits : Limits} {levels : Nat} {type : String} (h : env.Usable type)
    {r : Reader} (hr : r.Sound) (hlevels : r.ahead.length < levels) {e : CodecError}
    {s : DecodeState} (hrun : decodeObject env limits levels type ⟨r, []⟩ = .error e s) :
    e.isFatal = false := by
  induction levels generalizing type r e s with
  | zero => omega
  | succ levels ih =>
    obtain ⟨schema, fresh, hschema, hfresh⟩ := h type .refl
    have hblind := fun inner => decodeObject_blind env limits levels inner
    have hlocal := fun inner => decodeObject_local env limits levels inner
    rw [decodeObject_apply limits levels hschema hfresh] at hrun
    rcases Decode.objectFrame_cases env limits schema hblind hlocal hr fresh with
      ⟨frame, fields, -, -, -, hcase⟩ | ⟨c, -, s', hcase⟩ |
      ⟨header, e', hwindow, hlength, heffect, -, s', hcase⟩ | ⟨size, -, -, s', hcase⟩
    · rw [hrun] at hcase
      cases hcase
    · rw [hrun] at hcase
      cases hcase
      rfl
    · rw [hrun] at hcase
      cases hcase
      obtain ⟨entry, kind, inner, r', s'', hentry, hinner, hr', hlength', hobject, -⟩ :=
        Decode.fieldEffect_error hblind hlocal hwindow heffect
      have hnested := h.nested ⟨schema, header.id, entry, kind, hschema, hentry, hinner⟩
      exact ih hnested hr' (by omega) hobject
    · rw [hrun] at hcase
      cases hcase
      rfl

end Environment

/-- The unknown fields of a report with their sizes. -/
def Report.unknownSizes (report : Report) : List (UInt16 × Nat) :=
  report.filterMap fun
    | .unknownField _ id size => some (id, size)
    | _ => none

namespace Decode

variable {env : Environment} {limits : Limits} {nested : ObjectReader} {schema : Schema}
variable {bytes : Array UInt8} {header : FieldHeader} {effect : FieldEffect}

/-- A field says of itself that it is unknown just if the type does not have it. -/
lemma Outcome.unknownSizes_own
    (h : Outcome env limits nested schema bytes header effect) :
    Report.unknownSizes effect.own =
      if schema.entry? header.id = none then [(header.id, header.size)] else [] := by
  cases h with
  | unknown hentry =>
    rw [if_pos hentry]
    rfl
  | @replaced entry kind m s gates hentry hrun htold hgates hgate =>
    rw [if_neg (by simp [hentry])]
    refine List.filterMap_eq_nil_iff.mpr fun event hevent => ?_
    obtain ⟨gate, found, rfl⟩ := hgate event hevent
    rfl
  | @skipped entry kind e s hentry hrun hfatal htold =>
    rw [if_neg (by simp [hentry])]
    rfl

/-- The fields of a frame that say of themselves that they are unknown are those that the type
does not have. -/
lemma unknownSizes_own {fields : List (FieldHeader × FieldEffect)}
    (h : ∀ field ∈ fields, Outcome env limits nested schema bytes field.1 field.2) :
    Report.unknownSizes (fields.flatMap fun field => field.2.own) =
      ((fields.map Prod.fst).filter fun header => schema.entry? header.id = none).map
        fun header => (header.id, header.size) := by
  induction fields with
  | nil => rfl
  | cons field rest ih =>
    have hown := (h field List.mem_cons_self).unknownSizes_own
    have hrest := ih fun field hfield => h field (List.mem_cons_of_mem _ hfield)
    rw [List.flatMap_cons, Report.unknownSizes, List.filterMap_append, List.map_cons]
    change Report.unknownSizes field.2.own ++ Report.unknownSizes _ = _
    rw [hown, hrest]
    by_cases hentry : schema.entry? field.1.id = none
    · rw [if_pos hentry, List.filter_cons_of_pos (by simpa using hentry)]
      rfl
    · rw [if_neg hentry, List.filter_cons_of_neg (by simpa using hentry)]
      rfl

end Decode

/-- Without limits, an object of a usable type is read as the fold over the fields of the outline,
or there is no outline, and reading finds the corruption that it is missing for. -/
lemma decode_unlimited_cases {env : Environment} {type : String} {bytes : Array UInt8}
    (hsize : bytes.size ≤ maxBuffer) (husable : env.Usable type) :
    (∃ levels schema fresh frame fields r', env.schemaOf type = .ok schema ∧
      Read.outline (.ofBytes bytes) = .ok frame r' ∧ fields.map Prod.fst = frame.headers ∧
      (∀ field ∈ fields, Decode.Outcome env .unlimited (decodeObject env .unlimited levels)
        schema bytes field.1 field.2) ∧
      decode env .unlimited type (.ofBytes bytes) = .ok (FieldEffect.fold fields (fresh, []))
        ((Reader.ofBytes bytes).advance (frame.stop - (Reader.ofBytes bytes).pos))) ∨
    ∃ c, (∃ r', Read.outline (.ofBytes bytes) = .error (.corruption c) r') ∧
      ∃ r', decode env .unlimited type (.ofBytes bytes) = .error (.corruption c) r' := by
  have hr := Reader.sound_ofBytes hsize
  have hlength : (Reader.ofBytes bytes).ahead.length = bytes.size := by
    rw [Reader.ahead_ofBytes, Array.length_toList]
  obtain ⟨levels, hdepth⟩ := Nat.exists_eq_succ_of_ne_zero
    (show Limits.unlimited.maxDepth ≠ 0 by decide)
  have hlevels : bytes.size < levels := by
    simp only [Limits.unlimited, UInt64.size, maxBuffer] at hdepth hsize
    omega
  obtain ⟨schema, fresh, hschema, hfresh⟩ := husable type .refl
  have hblind := fun inner => decodeObject_blind env .unlimited levels inner
  have hlocal := fun inner => decodeObject_local env .unlimited levels inner
  have hframe : ∀ s, decodeObject env .unlimited Limits.unlimited.maxDepth type s =
      Decode.objectFrame env .unlimited (decodeObject env .unlimited levels) schema fresh s := by
    intro s
    rw [hdepth, decodeObject_apply _ _ hschema hfresh]
  have hlarge : Limits.unlimited.maxObjectBytes = 18446744073709551615 := rfl
  rcases Decode.objectFrame_cases env .unlimited schema hblind hlocal hr fresh with
    ⟨frame, fields, hout, hheaders, heffects, hcase⟩ | ⟨c, hout, s, hcase⟩ |
    ⟨header, e, hwindow, hshort, heffect, hfatal, s, hcase⟩ | ⟨size, hexceeds, hle, s, hcase⟩
  · refine .inl ⟨levels, schema, fresh, frame, fields, _, hschema, hout, hheaders, ?_, ?_⟩
    · intro field hfield
      obtain ⟨hwindow, heffect⟩ := heffects field hfield
      exact Decode.fieldEffect_outcome hblind hlocal hwindow heffect
    · unfold decode
      rw [hframe, hcase]
      dsimp only
      rw [List.reverse_reverse]
  · refine .inr ⟨c, hout, s.reader, ?_⟩
    unfold decode
    rw [hframe, hcase]
  · -- an object inside a field has levels left for all its bytes
    obtain ⟨entry, kind, inner, r', s', hentry, hinner, hr', hlength', hobject, -⟩ :=
      Decode.fieldEffect_error hblind hlocal hwindow heffect
    have hnested := husable.nested ⟨schema, header.id, entry, kind, hschema, hentry, hinner⟩
    have hharmless := hnested.not_fatal hr' (by omega) hobject
    rw [hharmless] at hfatal
    cases hfatal
  · -- no buffer is longer than the limit on the bytes of an object
    simp only [maxBuffer] at hsize
    omega

/-- Scanning and reading agree on frames. Without limits, and for a type that is usable together
with all types inside, a scan finds a corruption just where reading does, and it is the same one.
Otherwise both answer: reading ends where the layout does, and the fields that are reported as
unknown at the top level, not by an object inside, are those of the layout that the type does
not have. -/
theorem scan_decode_agree {env : Environment} {type : String} {bytes : Array UInt8}
    (hsize : bytes.size ≤ maxBuffer) (husable : env.Usable type) :
    (∀ c, ObjectLayout.scan bytes .unlimited = .error (.corruption c) ↔
      ∃ r, decode env .unlimited type (.ofBytes bytes) = .error (.corruption c) r) ∧
    ((∃ c, ObjectLayout.scan bytes .unlimited = .error (.corruption c)) ∨
      ∃ (layout : ObjectLayout) (o : Object) (report : Report) (r : Reader) (levels : Nat)
        (schema : Schema) (fields : List (FieldHeader × FieldEffect)),
        ObjectLayout.scan bytes .unlimited = .ok layout ∧
        decode env .unlimited type (.ofBytes bytes) = .ok (o, report) r ∧
        r.pos = layout.stop ∧ env.schemaOf type = .ok schema ∧
        layout.fields.map FieldLayout.summary =
          fields.map (fun field => field.1.summary) ∧
        (∀ field ∈ fields, Decode.Outcome env .unlimited (decodeObject env .unlimited levels)
          schema bytes field.1 field.2) ∧
        report = fields.flatMap (fun field => field.2.inner ++ field.2.own) ∧
        Report.unknownSizes (fields.flatMap fun field => field.2.own) =
          (layout.fields.filter fun field => schema.entry? field.id = none).map
            fun field => (field.id, field.size)) := by
  rcases decode_unlimited_cases hsize husable with
    ⟨levels, schema, fresh, frame, fields, _, hschema, hout, hheaders, houtcome, hrun⟩ |
    ⟨c, ⟨_, hout⟩, r, hrun⟩
  · rcases ObjectLayout.scan_cases hsize with
      ⟨frame', layout, hout', hscan, hstop, hsummary⟩ | ⟨c, ⟨r', hout'⟩, hscan⟩
    · rw [hout] at hout'
      injection hout' with hframe
      subst hframe
      have hfields : layout.fields.map FieldLayout.summary =
          fields.map fun field => field.1.summary := by
        rw [hsummary, ← hheaders, List.map_map]
        rfl
      refine ⟨fun c => ⟨fun h => ?_, fun h => ?_⟩, .inr ⟨layout, _, _, _, levels, schema,
        fields, hscan, hrun, ?_, hschema, hfields, houtcome, ?_, ?_⟩⟩
      · rw [hscan] at h
        cases h
      · obtain ⟨r, h⟩ := h
        rw [hrun] at h
        cases h
      · rw [hstop]
        exact Nat.zero_add frame.stop
      · exact FieldEffect.report_fold fields (fresh, [])
      · rw [Decode.unknownSizes_own houtcome, hheaders]
        -- both lists say the same of each field
        have hlayout := congrArg (fun summaries =>
          (summaries.filter fun summary => schema.entry? summary.1 = none).map fun summary =>
            (summary.1, summary.2.2.1)) hsummary
        simp only [List.filter_map, List.map_map] at hlayout
        exact hlayout.symm
    · rw [hout] at hout'
      cases hout'
  · rcases ObjectLayout.scan_cases hsize with
      ⟨frame', layout, hout', hscan, -, -⟩ | ⟨c', ⟨r'', hout'⟩, hscan⟩
    · rw [hout] at hout'
      cases hout'
    · rw [hout] at hout'
      injection hout' with hcorrupt
      injection hcorrupt with hcorrupt
      subst hcorrupt
      refine ⟨fun c' => ⟨fun h => ?_, fun h => ?_⟩, .inl ⟨c, hscan⟩⟩
      · rw [hscan] at h
        cases h
        exact ⟨_, hrun⟩
      · obtain ⟨r, h⟩ := h
        rw [hrun] at h
        cases h
        exact hscan

/-- A point has no objects inside, so it is usable by itself. -/
lemma Sample.points_usable : Sample.points.Usable "Point" := by
  have hschema : Sample.points.schemaOf "Point" = .ok Sample.pointSchema := rfl
  have hnone : ∀ inner, ¬ Sample.points.Nests "Point" inner := by
    rintro inner ⟨schema, id, entry, kind, hschema', hentry, hinner⟩
    rw [hschema] at hschema'
    cases hschema'
    have hmem := Decode.entry?_mem hentry
    simp only [Sample.pointSchema, List.mem_cons, Prod.mk.injEq, List.not_mem_nil, or_false] at hmem
    rcases hmem with ⟨-, rfl⟩ | ⟨-, rfl⟩
    · cases hinner
    · cases hinner
  intro inner hinner
  rcases Relation.ReflTransGen.cases_head hinner with rfl | ⟨next, hnext, -⟩
  · exact ⟨Sample.pointSchema, _, hschema, rfl⟩
  · exact absurd hnext (hnone next)

/-- Of the sample frame, scan and reading say the same. -/
theorem scan_decode_agree_point :
    Sample.pointFrame.size ≤ maxBuffer ∧ Sample.points.Usable "Point" ∧
    ∀ c, ObjectLayout.scan Sample.pointFrame .unlimited = .error (.corruption c) ↔
      ∃ r, decode Sample.points .unlimited "Point" (.ofBytes Sample.pointFrame) =
        .error (.corruption c) r := by
  have hsize : Sample.pointFrame.size ≤ maxBuffer := by decide
  exact ⟨hsize, Sample.points_usable, (scan_decode_agree hsize Sample.points_usable).1⟩

end TaggedParcel
