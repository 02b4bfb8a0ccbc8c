import TaggedParcel.Proofs.Object.Fold
import TaggedParcel.Sample.Nesting

set_option relaxedAutoImplicit false
set_option autoImplicit false

/-!
# How long a report can be

Whoever sends bytes cannot make a reader report more than the bytes pay for. A field has a header
of four bytes at least, and of the field itself at most one event is told. What is told of the
objects in its payload is paid for by the headers of their own fields, since these objects lie one
behind the other and inside the payload. This holds also where an object in a payload fails and
its field is passed over: what was told until then was paid for by the bytes until then.

## Main definitions

* `Decode.Paid` — results of runs that tell at most one event for every four bytes.
* `Decode.Frugal` — computations all of whose runs are paid for, whether they answer or fail.

## Main results

* `Decode.Told.length_le` — objects that lie one behind the other pay together.
* `Decode.fieldInto_paid` — the step: a header and its payload pay for what the field tells.
* `Decode.fieldsInto_paid` — the run: so do the fields of a frame together.
* `decodeObject_frugal` — objects pay for what is told of them, and have four bytes to spare.
* `decode_report_length_le` — the bound on the report.
-/

namespace TaggedParcel

namespace Decode

variable {α : Type} {r : Reader} {events : List Diagnostic} {spare : Nat}

/-- Results of a run that moves forward, within the bytes ahead, and tells at most one event for
every four bytes that it passes. Where it answers, it passes `spare` bytes more than it needs for
that. -/
inductive Paid (spare : Nat) (r : Reader) (events : List Diagnostic) :
    EStateM.Result CodecError DecodeState α → Prop where
  /-- The run answers. -/
  | ok (a : α) (n : Nat) (told : List Diagnostic) (hn : n ≤ r.ahead.length)
    (h : 4 * told.length + spare ≤ n) : Paid spare r events (.ok a ⟨r.advance n, told ++ events⟩)
  /-- The run fails. -/
  | error (e : CodecError) (n : Nat) (told : List Diagnostic) (hn : n ≤ r.ahead.length)
    (h : 4 * told.length ≤ n) : Paid spare r events (.error e ⟨r.advance n, told ++ events⟩)

/-- Computations all of whose runs are paid for by the bytes that they pass. -/
def Frugal (spare : Nat) (m : Decode α) : Prop :=
  ∀ (r : Reader) (events : List Diagnostic), r.Sound → Paid spare r events (m ⟨r, events⟩)

namespace Paid

/-- A run that passes nothing and tells nothing. -/
lemma refl (a : α) (r : Reader) (events : List Diagnostic) :
    Paid 0 r events (.ok a ⟨r, events⟩ : EStateM.Result CodecError DecodeState α) :=
  .ok a 0 [] (Nat.zero_le _) (Nat.le_refl _)

/-- A failure that tells nothing. -/
lemma silent (e : CodecError) {n : Nat} (hn : n ≤ r.ahead.length) (events : List Diagnostic) :
    Paid spare r events
      (.error e ⟨r.advance n, events⟩ : EStateM.Result CodecError DecodeState α) :=
  .error e n [] hn (Nat.zero_le _)

/-- A run that is paid for goes on behind bytes that pay for what was told there. What these have
left over is to spare. -/
lemma behind {n extra : Nat} {told : List Diagnostic}
    {result : EStateM.Result CodecError DecodeState α}
    (h : Paid spare (r.advance n) (told ++ events) result) (hn : n ≤ r.ahead.length)
    (htold : 4 * told.length + extra ≤ n) : Paid (spare + extra) r events result := by
  cases h with
  | ok a k told' hk hpaid =>
    rw [Reader.ahead_advance, List.length_drop] at hk
    rw [Reader.advance_advance, ← List.append_assoc]
    refine .ok a (n + k) (told' ++ told) (by omega) ?_
    rw [List.length_append]
    omega
  | error e k told' hk hpaid =>
    rw [Reader.ahead_advance, List.length_drop] at hk
    rw [Reader.advance_advance, ← List.append_assoc]
    refine .error e (n + k) (told' ++ told) (by omega) ?_
    rw [List.length_append]
    omega

/-- A block with room of its own is paid for by that room, if it is paid for inside. -/
lemma framed {block : Decode α} (hlocal : Local block) (hr : r.Sound) {size : Nat}
    (hsize : size ≤ r.ahead.length)
    (h : Paid 0 (r.narrow size) events (block ⟨r.narrow size, events⟩)) :
    Paid 0 r events (Decode.framed size block ⟨r, events⟩) := by
  have hroom : (r.narrow size).ahead.length = size := by
    rw [Reader.ahead_narrow hr hsize, List.length_take]
    omega
  rw [framed_of_le hlocal hr hsize]
  generalize block ⟨r.narrow size, events⟩ = result at h ⊢
  cases h with
  | ok a n told hn htold => exact .ok a size told hsize (by omega)
  | error e n told hn htold => exact .error e n told (by omega) htold

end Paid

/-- What a frugal computation reports is paid for by the bytes that it passes. -/
lemma Frugal.length_report {m : Decode α} (h : Frugal spare m) (hr : r.Sound) :
    r.pos + 4 * (report m r).length ≤ (final m r).reader.pos := by
  have hpaid := h r [] hr
  generalize hrun : m ⟨r, []⟩ = result at hpaid
  cases hpaid with
  | ok a n told hn hpaid =>
    rw [report, final_ok hrun, List.length_reverse, List.append_nil]
    dsimp only [Reader.advance_pos]
    omega
  | error e n told hn hpaid =>
    rw [report, final_error hrun, List.length_reverse, List.append_nil]
    dsimp only [Reader.advance_pos]
    omega

/-- Objects that are read one behind the other pay together for what all of them report. -/
theorem Told.length_le {objects : ObjectReader} {types : String → Prop} {bytes : Array UInt8}
    {stop pos finish : Nat} {reported : Report}
    (h : Told objects types bytes stop pos finish reported)
    (hfrugal : ∀ type, types type → Frugal spare (objects type)) :
    pos + 4 * reported.length ≤ finish := by
  induction h with
  | nil h => simpa using h
  | cons htype hr _ hpos _ _ ih =>
    have hobject := (hfrugal _ htype).length_report hr
    rw [List.length_append]
    omega

/-! ## Fields -/

variable {env : Environment} {limits : Limits} {nested : ObjectReader} {schema : Schema}

section Fields

variable (hblind : ∀ inner, Blind (nested inner)) (hlocal : ∀ inner, Local (nested inner))
  (hfrugal : ∀ inner, Frugal spare (nested inner))
include hblind hlocal hfrugal

/-- A payload pays for what the objects in it tell. -/
lemma length_told_member_le {type : String} {header : FieldHeader} {entry : FieldDescriptor}
    {kind : FieldKind} (hr : r.Sound) {k : Nat} {told : List Diagnostic}
    (hrun : (∃ m, member env limits nested type header entry kind ⟨r, []⟩ =
        .ok m ⟨r.advance k, told⟩) ∨
      ∃ e, member env limits nested type header entry kind ⟨r, []⟩ =
        .error e ⟨r.advance k, told⟩) : 4 * told.length ≤ k := by
  have hpays : r.pos + 4 * (report (member env limits nested type header entry kind) r).length ≤
      (final (member env limits nested type header entry kind) r).reader.pos :=
    ((member_assembled env limits nested type header entry kind).told (fun inner _ => hblind inner)
      (fun inner _ => hlocal inner) hr).length_le fun inner _ => hfrugal inner
  have hfinal : final (member env limits nested type header entry kind) r =
      ⟨r.advance k, told⟩ := by
    rcases hrun with ⟨m, hrun⟩ | ⟨e, hrun⟩
    · exact final_ok hrun
    · exact final_error hrun
  rw [report, hfinal, List.length_reverse] at hpays
  exact Nat.le_of_add_le_add_left hpays

/-- What a field tells is paid for by its payload and by the four bytes of a header, since the
field itself adds at most one event. -/
lemma length_fieldEffect_le {bytes : Array UInt8} {header : FieldHeader}
    (hwindow : (header.window bytes).Sound) {effect : FieldEffect}
    (h : fieldEffect env limits nested schema bytes header = .ok effect) :
    header.payloadStart + 4 * effect.report.length ≤ header.stop + 4 := by
  have hlength : (header.window bytes).ahead.length = header.stop - header.payloadStart :=
    Reader.length_ahead hwindow
  have hle : header.payloadStart ≤ header.stop := hwindow.pos_le
  unfold fieldEffect at h
  cases hentry : schema.entry? header.id with
  | none =>
    rw [hentry] at h
    cases h
    simpa [FieldEffect.report] using hle
  | some registered =>
    obtain ⟨entry, kind⟩ := registered
    rw [hentry] at h
    dsimp only at h
    rcases ((member_assembled env limits nested schema.name header entry kind).local
      fun inner _ => hlocal inner).moves hwindow [] with
      ⟨m, k, told, hk, hrun⟩ | ⟨e, k, told, hk, hrun⟩
    · have hgate := length_gateReport_le schema.name entry kind m
      have htold := length_told_member_le hblind hlocal hfrugal hwindow (.inl ⟨m, hrun⟩)
      rw [hrun] at h
      cases h
      simp only [FieldEffect.report, List.length_append, List.length_reverse]
      omega
    · have htold := length_told_member_le hblind hlocal hfrugal hwindow (.inr ⟨e, hrun⟩)
      rw [hrun] at h
      dsimp only at h
      split at h
      · cases h
      · cases h
        simp only [FieldEffect.report, List.length_append, List.length_reverse,
          List.length_singleton]
        omega

/-- A field that fails fatally has told what its payload paid for until then. -/
lemma fieldInto_fatal (hr : r.Sound) {header : FieldHeader} {n : Nat} (hn : n ≤ r.ahead.length)
    (hstart : header.payloadStart = r.pos + n)
    (hread : Read.fieldHeader r = .ok header (r.advance n)) (hstop : header.stop ≤ r.limit)
    {e : CodecError} (h : fieldEffect env limits nested schema r.bytes header = .error e)
    (o : Object) (events : List Diagnostic) :
    Paid 0 r events (fieldInto env limits nested schema r.limit o ⟨r, events⟩) := by
  unfold fieldEffect at h
  cases hentry : schema.entry? header.id with
  | none =>
    rw [hentry] at h
    cases h
  | some registered =>
    obtain ⟨entry, kind⟩ := registered
    rw [hentry] at h
    dsimp only at h
    rcases within_field_cases schema.name entry kind hblind hlocal hr hn hstart hstop events with
      ⟨m, k, told, hk, hrun, -⟩ | ⟨e', k, told, hk, hrun, hwithin⟩
    · rw [hrun] at h
      cases h
    · have htold := length_told_member_le hblind hlocal hfrugal
        (FieldHeader.window_ahead hr hstart hstop).1 (.inr ⟨e', hrun⟩)
      rw [hrun] at h
      dsimp only at h
      by_cases hfatal : e'.isFatal
      · have hinto : fieldInto env limits nested schema r.limit o ⟨r, events⟩ =
            .error e' ⟨r.advance (n + k), told ++ events⟩ := by
          unfold fieldInto
          rw [bind_apply, frame_apply, hread]
          dsimp only
          rw [if_neg (Nat.not_lt.mpr hstop), hentry]
          dsimp only
          rw [bind_apply]
          unfold orSkip
          rw [hwithin]
          dsimp only
          rw [if_pos hfatal]
        rw [hinto]
        exact .error e' (n + k) told hk (by omega)
      · rw [if_neg hfatal] at h
        cases h

/-- A field of a frame is paid for by its header and its payload.

**Proof sketch.** A field whose header is corrupt or promises too much tells nothing. Of the
others, the payload pays for what the objects in it tell, and the four bytes of the header pay
for the one event that the field may add: that it is unknown, that it was passed over, or that
an integer is above its gate. -/
theorem fieldInto_paid (hr : r.Sound) (o : Object) (events : List Diagnostic) :
    Paid 0 r events (fieldInto env limits nested schema r.limit o ⟨r, events⟩) := by
  have hlimit := Reader.limit_eq hr
  rcases Read.fieldHeader_cases hr with ⟨header, n, h4, hn, hstart, hread⟩ | ⟨c, n, hn, hread⟩
  · by_cases hstop : header.stop ≤ r.limit
    · have hwindow := (FieldHeader.window_ahead hr hstart hstop).1
      have hinto := @fieldInto_cases env limits nested r schema hblind hlocal hr header n hn
        hstart hread hstop o events
      cases heffect : fieldEffect env limits nested schema r.bytes header with
      | ok effect =>
        have hlength := length_fieldEffect_le hblind hlocal hfrugal hwindow heffect
        rw [heffect] at hinto
        rw [hinto]
        refine .ok _ _ _ (by omega) ?_
        rw [List.length_reverse]
        omega
      | error e =>
        exact fieldInto_fatal hblind hlocal hfrugal hr hn hstart hread hstop heffect o events
    · rw [fieldInto_overread hread (Nat.lt_of_not_le hstop) o events]
      exact .silent _ hn events
  · rw [fieldInto_corrupt hread r.limit o events]
    exact .silent _ hn events

/-- The fields of a frame pay for what is told while they are read.

**Proof sketch.** Induction on the fuel. A field that is read leaves the reader where the next one
starts, and what both pay adds up. -/
theorem fieldsInto_paid (fuel : Nat) (hr : r.Sound) (o : Object) (events : List Diagnostic) :
    Paid 0 r events (fieldsInto env limits nested schema r.limit fuel o ⟨r, events⟩) := by
  induction fuel generalizing r o events with
  | zero => exact .refl o r events
  | succ fuel ih =>
    by_cases hpos : r.pos < r.limit
    · have hfield : Paid 0 r events (fieldInto env limits nested schema r.limit o ⟨r, events⟩) :=
        fieldInto_paid hblind hlocal hfrugal hr o events
      rw [fieldsInto_step env limits nested schema fuel o events hpos]
      generalize fieldInto env limits nested schema r.limit o ⟨r, events⟩ = result at hfield
      cases hfield with
      | ok o' n told hn htold => exact (ih (hr.advance hn) o' (told ++ events)).behind hn htold
      | error e n told hn htold => exact .error e n told hn htold
    · have hend : r.pos = r.limit := Nat.le_antisymm hr.pos_le (Nat.le_of_not_lt hpos)
      rw [fieldsInto_end env limits nested schema _ o events hend]
      exact .refl o r events

/-- An object pays for what is told of its fields, and the bytes of its own header are to spare. -/
theorem objectFrame_frugal (schema : Schema) (fresh : Object) :
    Frugal 4 (objectFrame env limits nested schema fresh) := by
  intro r events hr
  rcases Read.objectHeader_cases hr with ⟨n, size, h4, hsize, hread⟩ | ⟨c, n, hn, hread⟩
  · have hn : n ≤ r.ahead.length := by omega
    have hroom : size ≤ (r.advance n).ahead.length := by
      rw [Reader.ahead_advance, List.length_drop]
      omega
    rw [objectFrame_apply hr hsize hread]
    split
    · exact .silent _ hn events
    · have hfields : Paid 0 ((r.advance n).narrow size) events
          (fields env limits nested schema size fresh ⟨(r.advance n).narrow size, events⟩) :=
        fieldsInto_paid hblind hlocal hfrugal size ((hr.advance hn).narrow hroom) fresh events
      have hframed := Paid.framed (fields_local env limits hblind hlocal schema size fresh)
        (hr.advance hn) hroom hfields
      exact @Paid.behind _ r events 0 n 4 [] _ hframed hn h4
  · unfold objectFrame
    rw [bind_apply, frame_apply, hread]
    exact .silent _ hn events

end Fields

/-- Looking up what a type describes passes nothing and tells nothing. -/
lemma Frugal.described_bind {β : Type} (result : Except SchemaError α) {next : α → Decode β}
    (h : ∀ a, Frugal spare (next a)) : Frugal spare (described result >>= next) := by
  cases result with
  | ok a => exact h a
  | error e => exact fun r events _ => .silent (.schema e) (Nat.zero_le _) events

end Decode

/-- Objects pay for what is told of them and of the objects in them.

**Proof sketch.** Induction on the levels of nesting that are left. -/
theorem decodeObject_frugal (env : Environment) (limits : Limits) (levels : Nat) (type : String) :
    Decode.Frugal 4 (decodeObject env limits levels type) := by
  induction levels generalizing type with
  | zero =>
    exact .described_bind _ fun schema => .described_bind _ fun fresh r events _ =>
      .silent _ (Nat.zero_le _) events
  | succ levels ih =>
    exact .described_bind _ fun schema => .described_bind _ fun fresh =>
      Decode.objectFrame_frugal (fun inner => decodeObject_blind env limits levels inner)
        (fun inner => decodeObject_local env limits levels inner) ih schema fresh

/-- A report has at most one event for every four bytes that were read, those of the objects
inside included, and four bytes are left over for the header of the object itself. -/
theorem decode_report_length_le {env : Environment} {limits : Limits} {type : String}
    {r r' : Reader} {o : Object} {report : Report} (hr : r.Sound)
    (h : decode env limits type r = .ok (o, report) r') :
    4 * report.length + 4 ≤ r'.pos - r.pos := by
  have hpaid := decodeObject_frugal env limits limits.maxDepth type r [] hr
  unfold decode at h
  generalize decodeObject env limits limits.maxDepth type ⟨r, []⟩ = result at h hpaid
  cases hpaid with
  | error e n told hn htold => cases h
  | ok o' n told hn htold =>
    cases h
    rw [List.append_nil, List.length_reverse]
    dsimp only [Reader.advance_pos]
    omega

namespace Sample

/-- A type whose objects hold others of the same type. -/
def trees : Environment :=
  .ofTypes [tree ""] .empty

/-- A tree with two children in a list. The first one has a field that no tree has, and the second
one is missing, so that the list is passed over. -/
def unreadTree : Array UInt8 :=
  #[0x45, 0x4F, 24, 0, 2, 0, 20, 0, 2, 0, 0, 0,
    8, 0, 0, 0, 0x45, 0x4F, 4, 0, 7, 0, 0, 0,
    0, 0, 0, 0]

/-- What is told of the first child, and of the list. -/
def unreadTreeReport : Report :=
  [.unknownField "Tree" 7 0,
    .fieldSkipped "Tree" "children" 2 (CodecError.field .unexpectedNull).message]

/-- What is told by reading, and where the reading ends. -/
def told : EStateM.Result CodecError Reader (Object × Report) → Option (Report × Nat)
  | .ok (_, report) r => some (report, r.pos)
  | .error _ _ => none

end Sample

/-- Of the unread tree, all is reported, and the bytes that were read pay for it. -/
theorem decode_report_length_le_unreadTree :
    ∃ o r', decode Sample.trees .small "Tree" (.ofBytes Sample.unreadTree) =
        .ok (o, Sample.unreadTreeReport) r' ∧ r'.pos = 28 ∧
      4 * Sample.unreadTreeReport.length + 4 ≤ r'.pos - (Reader.ofBytes Sample.unreadTree).pos := by
  have htold : Sample.told (decode Sample.trees .small "Tree" (.ofBytes Sample.unreadTree)) =
      some (Sample.unreadTreeReport, 28) := by decide +kernel
  cases hread : decode Sample.trees .small "Tree" (.ofBytes Sample.unreadTree) with
  | error e r' =>
    rw [hread] at htold
    cases htold
  | ok answer r' =>
    obtain ⟨o, report⟩ := answer
    rw [hread] at htold
    obtain ⟨rfl, hpos⟩ := Prod.mk.inj (Option.some.inj htold)
    exact ⟨o, r', rfl, hpos, decode_report_length_le (Reader.sound_ofBytes (by decide)) hread⟩

/-- The bound is reached: of a point with an unreadable field and an unknown one two things are
told, and there are no more bytes than these have to have. -/
example :
    Sample.told (decode Sample.points .small "Point"
      (.ofBytes #[0x45, 0x4F, 8, 0, 1, 0, 0, 0, 7, 0, 0, 0])) =
    some ([.fieldSkipped "Point" "x" 1 (CodecError.field .unexpectedNull).message,
      .unknownField "Point" 7 0], 4 * 2 + 4) := by decide +kernel

end TaggedParcel
