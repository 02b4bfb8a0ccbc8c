import TaggedParcel.Proofs.Object.FieldGuard
import TaggedParcel.Proofs.Object.Roundtrip

set_option relaxedAutoImplicit false
set_option autoImplicit false

/-!
# How deep objects may nest

Objects may nest as deep as the limits say, and no deeper. Each object in another one is read with
one level less. Where there are none left reading ends, whichever field it was that the object is
in, and however much of the rest could be read.

## Main definitions

* `Schema.Admits` — objects of which a reader can read all but what nests in them.

## Main results

* `Decode.fieldsInto_guarded`, `Decode.objectFrame_guarded` — all fields are passed exactly if all
  conditions hold.
* `encodeObject_reads` — an object is read exactly if it does not nest deeper than the levels that
  are left.
* `decode_depth` — how deep an object may nest.
-/

namespace TaggedParcel

/-- An object of which a reader can read all but what nests in it: single values keep to the width
of their field, and collections of objects keep to the limits. -/
def Schema.Admits (limits : Limits) (schema : Schema) (o : Object) : Prop :=
  ∀ entry ∈ schema.entries, ∀ m, o.get? entry.1.id = some m →
    entry.2.Keeps schema.name entry.1 m ∧ entry.2.Bounds limits m

/-- What is true throughout an object, and something else that is. -/
lemma Object.Throughout.and {env : Environment} {p q : Schema → Object → Prop} {type : String}
    {o : Object} (h : o.Throughout env p type) (h' : o.Throughout env q type) :
    o.Throughout env (fun schema o => p schema o ∧ q schema o) type := by
  induction h with
  | @mk type o schema hschema hobject hobjects ih =>
    obtain @⟨_, _, schema', hschema', hobject', hobjects'⟩ := h'
    rw [hschema] at hschema'
    cases hschema'
    exact .mk hschema ⟨hobject, hobject'⟩ fun entry hentry m inner hm hinner nested hnested =>
      ih entry hentry m inner hm hinner nested hnested
        (hobjects' entry hentry m inner hm hinner nested hnested)

namespace Decode

/-! ## All fields -/

variable {env : Environment} {limits : Limits} {reader : ObjectReader} {schema : Schema}
  (hblind : ∀ inner, Blind (reader inner)) (hlocal : ∀ inner, Local (reader inner))
include hblind hlocal

/-- A field without objects never ends reading. -/
lemma fieldEffect_flat {bytes : Array UInt8} {header : FieldHeader}
    {entry : FieldDescriptor × FieldKind} (hentry : schema.entry? header.id = some entry)
    (hflat : entry.2.objectType? = none) (hwindow : (header.window bytes).Sound) :
    ∃ effect, fieldEffect env limits reader schema bytes header = .ok effect := by
  cases heffect : fieldEffect env limits reader schema bytes header with
  | ok effect => exact ⟨effect, rfl⟩
  | error e =>
    obtain ⟨entry', kind, inner, _, _, hentry', hinner, -⟩ :=
      fieldEffect_error hblind hlocal hwindow heffect
    rw [hentry] at hentry'
    cases hentry'
    rw [hflat] at hinner
    cases hinner

omit hblind hlocal in
/-- A field all of which can be read but the objects in it ends reading exactly if these nest too
deep. -/
lemma fieldEffect_nested {p : Prop} {bytes : Array UInt8} {header : FieldHeader}
    {payload : List UInt8} {entry : FieldDescriptor × FieldKind}
    (hentry : schema.entry? header.id = some entry)
    (hread : Guarded limits p (member env limits reader schema.name header entry.1 entry.2) payload
      fun _ => True)
    (hwindow : (header.window bytes).Sound) (hahead : (header.window bytes).ahead = payload) :
    (p → ∃ effect, fieldEffect env limits reader schema bytes header = .ok effect) ∧
      (¬ p → fieldEffect env limits reader schema bytes header = .error (.tooDeep limits)) := by
  have hpayload : payload <+: (header.window bytes).ahead := hahead ▸ List.prefix_rfl
  unfold fieldEffect
  rw [hentry]
  dsimp only
  constructor
  · intro hp
    obtain ⟨m, told, -, hrun⟩ := hread.answers hp _ hwindow hpayload []
    rw [hrun]
    exact ⟨_, rfl⟩
  · intro hp
    obtain ⟨s, hrun⟩ := hread.fails hp _ hwindow hpayload []
    rw [hrun]
    rfl

/-- A field that lies ahead has its effect, or reading ends there. -/
lemma fieldInto_of_effect {p : Prop} {format : FieldFormat} {id : UInt16} {payload : List UInt8}
    (hadmits : format.Admits payload.length) {r : Reader} (hr : r.Sound)
    (hfront : format.header id payload.length ++ payload <+: r.ahead)
    (heffect : ∀ header : FieldHeader, header.id = id → header.size = payload.length →
      (header.window r.bytes).Sound → (header.window r.bytes).ahead = payload →
      (p → ∃ effect, fieldEffect env limits reader schema r.bytes header = .ok effect) ∧
        (¬ p → fieldEffect env limits reader schema r.bytes header = .error (.tooDeep limits)))
    (cur : Object) (events : List Diagnostic) :
    (p → ∃ cur' events', fieldInto env limits reader schema r.limit cur ⟨r, events⟩ =
      .ok cur' ⟨r.advance (format.header id payload.length ++ payload).length, events'⟩) ∧
    (¬ p → ∃ s, fieldInto env limits reader schema r.limit cur ⟨r, events⟩ =
      .error (.tooDeep limits) s) := by
  have hlength := hfront.length_le
  rw [List.length_append, format.length_header] at hlength
  obtain ⟨header, hread, hid, hsize, hstart⟩ := Read.fieldHeader_of_format hr hadmits
    ((List.prefix_append _ _).trans hfront)
  have hfront' := hstart
  rw [← format.length_header id payload.length] at hfront'
  obtain ⟨hstop, hmove, hwindow, hahead⟩ :=
    FieldHeader.window_of_prefix hr hfront' hsize hfront
  obtain ⟨hpass, hend⟩ := heffect header hid hsize hwindow hahead
  have hinto := @fieldInto_cases env limits reader r schema hblind hlocal hr header
    format.width (by omega) hstart hread hstop cur events
  constructor
  · intro hp
    obtain ⟨effect, heffect⟩ := hpass hp
    rw [heffect, hmove] at hinto
    exact ⟨_, _, hinto⟩
  · intro hp
    rw [hend hp] at hinto
    obtain ⟨-, _, _, -, hrun⟩ := hinto
    exact ⟨_, hrun⟩

/-- A guarded field is passed, or reading ends there. -/
lemma fieldInto_guarded {p : Prop} {entry : FieldDescriptor × FieldKind} {bs : List UInt8}
    (h : GuardedField limits p
      (fun header => member env limits reader schema.name header entry.1 entry.2) entry bs)
    (hentry : schema.entry? entry.1.id = some entry) (hne : bs ≠ []) {r : Reader} (hr : r.Sound)
    (hfront : bs <+: r.ahead) (cur : Object) (events : List Diagnostic) :
    (p → ∃ cur' events', fieldInto env limits reader schema r.limit cur ⟨r, events⟩ =
      .ok cur' ⟨r.advance bs.length, events'⟩) ∧
    (¬ p → ∃ s, fieldInto env limits reader schema r.limit cur ⟨r, events⟩ =
      .error (.tooDeep limits) s) := by
  cases h with
  | missing => exact absurd rfl hne
  | @flat format payload hp hflat hadmits =>
    refine fieldInto_of_effect hblind hlocal hadmits hr hfront
      (fun header hid hsize hwindow hahead => ?_) cur events
    exact ⟨fun _ => fieldEffect_flat hblind hlocal (hid.symm ▸ hentry) hflat hwindow,
      fun hnot => absurd hp hnot⟩
  | @nested format payload hadmits hread =>
    exact fieldInto_of_effect hblind hlocal hadmits hr hfront
      (fun header hid hsize hwindow hahead =>
        fieldEffect_nested (hid.symm ▸ hentry) (hread header hsize) hwindow hahead) cur events

/-- All fields are passed, or reading ends at one of them.

**Proof sketch.** Induction on the fields. The first one whose condition does not hold is the one
at which reading ends. -/
theorem fieldsInto_guarded {fits : FieldDescriptor × FieldKind → Prop}
    {entries : List (FieldDescriptor × FieldKind)} {bs : List UInt8}
    (h : Concat (fun entry bs => GuardedField limits (fits entry)
      (fun header => member env limits reader schema.name header entry.1 entry.2) entry bs)
      entries bs)
    (hentries : ∀ entry ∈ entries, schema.entry? entry.1.id = some entry) {r : Reader}
    (hr : r.Sound) (hahead : r.ahead = bs) {fuel : Nat} (hfuel : bs.length ≤ fuel) (cur : Object)
    (events : List Diagnostic) :
    ((∀ entry ∈ entries, fits entry) → ∃ cur' events',
      fieldsInto env limits reader schema r.limit fuel cur ⟨r, events⟩ =
        .ok cur' ⟨r.advance bs.length, events'⟩) ∧
    (¬ (∀ entry ∈ entries, fits entry) → ∃ s,
      fieldsInto env limits reader schema r.limit fuel cur ⟨r, events⟩ =
        .error (.tooDeep limits) s) := by
  induction h generalizing r fuel cur events with
  | nil =>
    have hlimit := Reader.limit_eq hr
    rw [hahead] at hlimit
    refine ⟨fun _ => ⟨cur, events, ?_⟩, fun hnot => absurd (fun entry hmem => ?_) hnot⟩
    · exact fieldsInto_end env limits reader schema fuel cur events hlimit.symm
    · exact absurd hmem List.not_mem_nil
  | @cons entry rest bs bs' hfield hrest ih =>
    rw [List.forall_mem_cons] at hentries ⊢
    rcases hfield.nil_or_length with ⟨rfl, hp⟩ | hlength
    · -- a member without a field has no condition
      obtain ⟨hpass, hend⟩ := ih hentries.2 hr hahead hfuel cur events
      exact ⟨fun hall => hpass hall.2, fun hnot => hend fun hrest => hnot ⟨hp, hrest⟩⟩
    · have hlimit := Reader.limit_eq hr
      have hsizes := congrArg List.length hahead
      rw [List.length_append] at hsizes hfuel
      have hfront : bs <+: r.ahead := hahead ▸ List.prefix_append _ _
      obtain ⟨hpass, hend⟩ := fieldInto_guarded hblind hlocal hfield hentries.1
        (List.ne_nil_of_length_pos (by omega)) hr hfront cur events
      cases fuel with
      | zero => omega
      | succ fuel =>
        rw [fieldsInto_step env limits reader schema fuel cur events (by omega)]
        by_cases hp : fits entry
        · obtain ⟨cur', events', hinto⟩ := hpass hp
          have hbehind : (r.advance bs.length).ahead = bs' := by
            rw [Reader.ahead_advance, hahead, List.drop_left]
          obtain ⟨hpass', hend'⟩ := ih hentries.2 (hr.advance hfront.length_le) hbehind
            (show bs'.length ≤ fuel by omega) cur' events'
          rw [Reader.advance_limit, Reader.advance_advance, ← List.length_append] at hpass'
          rw [Reader.advance_limit] at hend'
          rw [hinto]
          exact ⟨fun hall => hpass' hall.2, fun hnot => hend' fun hrest => hnot ⟨hp, hrest⟩⟩
        · obtain ⟨s, hinto⟩ := hend hp
          rw [hinto]
          exact ⟨fun hall => absurd hall.1 hp, fun _ => ⟨s, rfl⟩⟩

/-- The frame of an object is read, or reading ends at an object in it. -/
lemma objectFrame_guarded {fits : FieldDescriptor × FieldKind → Prop} {bs : List UInt8}
    (h : Concat (fun entry bs => GuardedField limits (fits entry)
      (fun header => member env limits reader schema.name header entry.1 entry.2) entry bs)
      schema.entries bs)
    (hschema : schema.WellFormed) (hsize : bs.length < UInt32.size)
    (hlarge : bs.length ≤ limits.maxObjectBytes) (fresh : Object) :
    Guarded limits (∀ entry ∈ schema.entries, fits entry)
      (objectFrame env limits reader schema fresh)
      (FieldFormat.delimited.header objectMagic bs.length ++ bs) fun _ => True := by
  have hheader : FieldFormat.delimited.header objectMagic bs.length ++ bs =
      LittleEndian.digits 4 objectWord.toNat ++ (LittleEndian.digits 4 bs.length ++ bs) := by
    rw [objectWord_toNat, FieldFormat.header, List.append_assoc]
  have hlength : (FieldFormat.delimited.header objectMagic bs.length ++ bs).length =
      8 + bs.length := by
    rw [List.length_append, FieldFormat.length_header, FieldFormat.width]
  refine ⟨fun hall r hr hfront events => ?_, fun hnot r hr hfront events => ?_⟩
  all_goals
    rw [hheader] at hfront
    obtain ⟨hsound, hahead, hframe⟩ := @objectFrame_of_ahead env reader schema hblind hlocal
      limits bs hsize hlarge r hr hfront fresh events
    obtain ⟨hpass, hend⟩ := fieldsInto_guarded hblind hlocal h
      (fun entry hentry => hschema.entry?_eq hentry) hsound hahead (Nat.le_refl _) fresh events
  · obtain ⟨o, events', hrun⟩ := hpass hall
    have hfields : fields env limits reader schema bs.length fresh
      ⟨(r.advance 8).narrow bs.length, events⟩ = _ := hrun
    rw [hframe, hfields, hlength]
    exact ⟨o, events', trivial, rfl⟩
  · obtain ⟨s, hrun⟩ := hend hnot
    have hfields : fields env limits reader schema bs.length fresh
      ⟨(r.advance 8).narrow bs.length, events⟩ = _ := hrun
    rw [hframe, hfields]
    exact ⟨_, rfl⟩

end Decode

/-- Without a level left, an object of a described type is one too many. -/
lemma decodeObject_zero {env : Environment} (limits : Limits) {type : String} {schema : Schema}
    {fresh : Object} (hschema : env.schemaOf type = .ok schema)
    (hfresh : schema.construct = .ok fresh) (s : DecodeState) :
    decodeObject env limits 0 type s = .error (.tooDeep limits) s := by
  show (Decode.described (env.schemaOf type) >>= _) s = _
  rw [hschema]
  show (Decode.described schema.construct >>= _) s = _
  rw [hfresh]
  rfl

open Encode

/-- An object is read exactly if it does not nest deeper than the levels that are left.

**Proof sketch.** Induction on the levels for writing. Without levels for reading nothing is read.
With one, the frame is read exactly if the objects in the members nest one less. -/
theorem encodeObject_reads {env : Environment} {limits : Limits}
    (hcompiled : ∀ type schema, env.schemaOf type = .ok schema → schema.WellFormed)
    (levels depth : Nat) {type : String} {o : Object}
    (h : o.Throughout env (fun schema o => schema.Describes o ∧ schema.Admits limits o) type) :
    ReadsIf limits (o.nesting ≤ depth) (encodeObject env levels type o)
      (decodeObject env limits depth type) fun _ => True := by
  induction levels generalizing depth type o with
  | zero => exact Steady.schema fun _ _ => .throw _
  | succ levels ih =>
    obtain @⟨_, _, schema, hschema, ⟨hdescribes, hadmits⟩, hobjects⟩ := h
    obtain ⟨fresh, hfresh⟩ := hdescribes.constructible
    cases depth with
    | zero =>
      have hpos : ¬ o.nesting ≤ 0 := Nat.not_le.mpr o.nesting_pos
      refine .of_steady (encodeObject_form env (levels + 1) type o) fun bs _ _ =>
        ⟨fun hle => absurd hle hpos, fun _ r _ _ events => ?_⟩
      exact ⟨_, decodeObject_zero limits hschema hfresh _⟩
    | succ depth =>
      have hwell := hcompiled type schema hschema
      have hmembers : ∀ entry ∈ schema.entries, ∀ m, o.get? entry.1.id = some m →
          GuardsMember env limits (encodeObject env levels) (decodeObject env limits depth)
            schema.name entry.1 (fun inner => inner.nesting ≤ depth) entry.2 m := by
        intro entry hentry m hm
        obtain ⟨hkeeps, hbounds⟩ := hadmits entry hentry m hm
        exact field_guards (encodeObject_whole env levels) (hwell.resolve_eq hentry)
          (hdescribes.takes entry hentry m hm) hkeeps hbounds fun inner hinner nested hnested =>
            ih depth (hobjects entry hentry m inner hm hinner nested hnested)
      refine (Clean.encodeObject hschema hmembers).mono ?_
      rintro _ ⟨body, rfl, hfits, hconcat⟩ hlength
      rw [List.length_append, FieldFormat.length_header, FieldFormat.width] at hlength
      have hguarded : Concat (fun entry bs => Decode.GuardedField limits
          (∀ m, o.get? entry.1.id = some m → ∀ inner ∈ m.objects, inner.nesting ≤ depth)
          (fun header => Decode.member env limits (decodeObject env limits depth) schema.name
            header entry.1 entry.2) entry bs) schema.entries body := by
        refine (hconcat.mono ?_).bounded (show body.length ≤ 8 + limits.maxObjectBytes by omega)
        rintro entry bs ⟨m, hm, hbs⟩ hle
        exact (hbs hle).congr (by simp [hm])
      have hframe := Decode.objectFrame_guarded
        (fun inner => decodeObject_blind env limits depth inner)
        (fun inner => decodeObject_local env limits depth inner) hguarded hwell hfits (by omega)
        fresh
      rw [show decodeObject env limits (depth + 1) type = _ from
        funext (decodeObject_apply limits depth hschema hfresh)]
      refine Decode.Guarded.congr hframe ?_
      rw [hdescribes.nesting_le hwell]

/-- The bytes of an object take no more than a size word can say, and the header. -/
lemma encodeObject_bounded (env : Environment) (levels : Nat) (type : String) (o : Object) :
    Clean (encodeObject env levels type o) fun bs => bs.length < 8 + UInt32.size := by
  cases levels with
  | zero => exact Steady.schema fun _ _ => .throw _
  | succ levels =>
    refine Steady.schema fun found _ => ?_
    have hmembers : ∀ entry ∈ found.entries, ∀ m, o.get? entry.1.id = some m →
        Clean (field env (encodeObject env levels) found.name entry.1 entry.2 m) fun _ => True :=
      fun _ _ _ _ => .of_steady (field_form fun inner _ o => encodeObject_whole env levels inner o)
        fun _ _ => trivial
    refine (Clean.objectFrame (Clean.fields hmembers)).mono ?_
    rintro _ ⟨body, rfl, hfits, -⟩
    rw [List.length_append, FieldFormat.length_header, FieldFormat.width]
    omega

/-- How deep an object may nest. An object that is written without a report nests no deeper than
32 levels. Under any limits that admit all of it but its depth, it is read exactly if it does not
nest deeper than these allow; and if it does, reading fails for this and for nothing else, whatever
fields the objects are in.

Limits admit an object if they are large enough for its collections of objects. What is asked of
single values and of keys besides, that they keep to the width of their fields and can be read
back, is true of every kind of the format. It is a condition only on kinds that a user adds.

**Proof sketch.** Writing and reading both count a level for each object in another one. A member
is written as a field that a reader passes exactly if the objects in it do not nest too deep, and
otherwise ends at, because the failure is fatal. -/
theorem decode_depth {types : List TypeDecl} {interfaces : InterfaceRegistry} {type : String}
    {o : Object} {w : Writer}
    (hdescribes : o.Throughout (.ofTypes types interfaces) Schema.Describes type)
    (hclean : encode (.ofTypes types interfaces) type o .empty = (.ok [], w)) :
    o.nesting ≤ 32 ∧
    ∀ limits : Limits, o.Throughout (.ofTypes types interfaces) (Schema.Admits limits) type →
      w.bytes.size ≤ 8 + limits.maxObjectBytes →
      (limits.maxDepth < o.nesting → ∃ r,
        decode (.ofTypes types interfaces) limits type (.ofBytes w.bytes) =
          .error (.depthExceeded (limits.maxDepth + 1) limits.maxDepth) r) ∧
      (o.nesting ≤ limits.maxDepth → ∃ result r,
        decode (.ofTypes types interfaces) limits type (.ofBytes w.bytes) = .ok result r) := by
  have hcompiled : ∀ type schema, (Environment.ofTypes types interfaces).schemaOf type =
      .ok schema → schema.WellFormed := fun _ _ h => Environment.ofTypes_wellFormed h
  refine ⟨(encodeObject_nests hcompiled encodeDepth type o).of_encode hclean hdescribes, ?_⟩
  intro limits hadmits hsize
  have hbound := (encodeObject_bounded _ encodeDepth type o).of_encode hclean
  have hread := (encodeObject_reads hcompiled encodeDepth limits.maxDepth
    (hdescribes.and hadmits)).of_encode hclean
  rw [Array.length_toList] at hbound hread
  have hmax : 8 + UInt32.size ≤ maxBuffer := by decide
  have hsound : (Reader.ofBytes w.bytes).Sound := Reader.sound_ofBytes (by omega)
  have hahead : w.bytes.toList <+: (Reader.ofBytes w.bytes).ahead :=
    Reader.ahead_ofBytes w.bytes ▸ List.prefix_rfl
  have hguarded := hread hsize
  unfold decode
  constructor
  · intro hdeep
    obtain ⟨s, hrun⟩ := hguarded.fails (Nat.not_le.mpr hdeep) _ hsound hahead []
    rw [hrun]
    exact ⟨_, rfl⟩
  · intro hroom
    obtain ⟨o', told, -, hrun⟩ := hguarded.answers hroom _ hsound hahead []
    rw [hrun]
    exact ⟨_, _, rfl⟩

namespace Sample

/-- A flaky number in a field of fixed width. -/
def age : RefinedValue :=
  { flaky with shape := .int }

/-- A type that mentions itself as an object and in a map, and has a flaky number. The keys of the
map change their kind when they are written. -/
def twig : TypeDecl :=
  fresh "Twig" none
    [.field 1 "tip" (.object "Twig") { nullable := true },
    .field 2 "sides" (.objectMap (.refined odd) "Twig") {},
    .field 3 "age" (.value (.refined age) false) {}]

/-- The types of the objects below. -/
def twigs : Environment :=
  .ofTypes [twig] .empty

/-- An object with a tip and sides. -/
def grown (tip : Option Object) (sides : List (Value × Object)) : Object :=
  ⟨[(1, .object tip), (2, .objectMap sides), (3, .value (some (.int 5)))]⟩

/-- An object without others in it. -/
def bud : Object :=
  grown none []

/-- An object in a field. -/
def shoot : Object :=
  grown (some bud) []

/-- An object in a map, with another one in it. -/
def branch : Object :=
  grown none [(.int 0, shoot)]

/-- The schema of the type of these objects. -/
def twigSchema : Schema :=
  ⟨⟨"Twig", [⟨1, "tip", .object, .object "Twig", some "Twig", { nullable := true }⟩,
      ⟨2, "sides", .map, .map .int (.object "Twig"), some "Twig", {}⟩,
      ⟨3, "age", .int, .int, none, {}⟩], true⟩,
    [(1, .object "Twig"), (2, .objectMap (.refined odd) "Twig"), (3, .value (.refined age) false)],
    some ⟨[(1, .object none), (2, .objectMap []), (3, .value (some (.int 0)))]⟩⟩

/-- The bytes of the outermost object. Its key is written as a null. -/
def branchFrame : Array UInt8 :=
  #[0x45, 0x4F, 0xFF, 0xFF, 116, 0, 0, 0,
    1, 0, 0, 0,
    2, 0, 0xFF, 0xFF, 96, 0, 0, 0, 1, 0, 0, 0, 0xFF, 0xFF, 0xFF, 0xFF,
    4, 0, 0, 0, 4, 0, 0, 0, 0x54, 0, 0x77, 0, 0x69, 0, 0x67, 0, 0, 0, 0, 0,
    0x45, 0x4F, 0xFF, 0xFF, 60, 0, 0, 0,
    1, 0, 0xFF, 0xFF, 32, 0, 0, 0,
    0x45, 0x4F, 0xFF, 0xFF, 24, 0, 0, 0,
    1, 0, 0, 0, 2, 0, 0xFF, 0xFF, 4, 0, 0, 0, 0, 0, 0, 0, 3, 0, 4, 0, 5, 0, 0, 0,
    2, 0, 0xFF, 0xFF, 4, 0, 0, 0, 0, 0, 0, 0, 3, 0, 4, 0, 5, 0, 0, 0,
    3, 0, 4, 0, 5, 0, 0, 0]

/-- The fields of the schema with their kinds. -/
lemma twig_entries : twigSchema.entries =
    [(⟨1, "tip", .object, .object "Twig", some "Twig", { nullable := true }⟩, .object "Twig"),
      (⟨2, "sides", .map, .map .int (.object "Twig"), some "Twig", {}⟩,
        .objectMap (.refined odd) "Twig"),
      (⟨3, "age", .int, .int, none, {}⟩, .value (.refined age) false)] := rfl

/-- A property of the fields of a twig holds if it holds of each member and the kind of its
field. -/
lemma forall_twig_entries (p : FieldDescriptor → FieldKind → Member → Prop) {tip : Option Object}
    {sides : List (Value × Object)}
    (htip : p ⟨1, "tip", .object, .object "Twig", some "Twig", { nullable := true }⟩
      (.object "Twig") (.object tip))
    (hsides : p ⟨2, "sides", .map, .map .int (.object "Twig"), some "Twig", {}⟩
      (.objectMap (.refined odd) "Twig") (.objectMap sides))
    (hage : p ⟨3, "age", .int, .int, none, {}⟩ (.value (.refined age) false)
      (.value (some (.int 5)))) :
    ∀ entry ∈ twigSchema.entries, ∀ m, (grown tip sides).get? entry.1.id = some m →
      p entry.1 entry.2 m := by
  intro entry hentry m hm
  rw [twig_entries] at hentry
  simp only [List.mem_cons, List.not_mem_nil, or_false] at hentry
  rcases hentry with rfl | rfl | rfl
  all_goals cases hm
  · exact htip
  · exact hsides
  · exact hage

/-- What is true of an object with a tip and sides, and throughout these, is true throughout the
object. -/
lemma twig_throughout {p : Schema → Object → Prop} {tip : Option Object}
    {sides : List (Value × Object)} (h : p twigSchema (grown tip sides))
    (htip : ∀ o ∈ tip, o.Throughout twigs p "Twig")
    (hsides : ∀ entry ∈ sides, entry.2.Throughout twigs p "Twig") :
    (grown tip sides).Throughout twigs p "Twig" := by
  refine .mk (show twigs.schemaOf "Twig" = .ok twigSchema from rfl) h ?_
  suffices hobjects : ∀ entry ∈ twigSchema.entries, ∀ m,
      (grown tip sides).get? entry.1.id = some m → ∀ inner, entry.2.objectType? = some inner →
        ∀ nested ∈ m.objects, nested.Throughout twigs p inner from
    fun entry hentry m inner hm hinner => hobjects entry hentry m hm inner hinner
  refine forall_twig_entries (fun _ kind m => ∀ inner, kind.objectType? = some inner →
    ∀ nested ∈ m.objects, nested.Throughout twigs p inner) ?_ ?_ nofun
  · rintro _ ⟨⟩ nested hnested
    cases tip with
    | none => cases hnested
    | some o => exact htip nested (by rw [List.mem_singleton.mp hnested]; rfl)
  · rintro _ ⟨⟩ nested hnested
    obtain ⟨entry, hentry, rfl⟩ := List.mem_map.mp hnested
    exact hsides entry hentry

/-- An object with a tip and sides is as its type describes it. -/
lemma twig_describes (tip : Option Object) (sides : List (Value × Object)) :
    twigSchema.Describes (grown tip sides) :=
  ⟨⟨_, rfl⟩, .refl _, forall_twig_entries (fun _ kind m => kind.Takes m) trivial trivial trivial⟩

/-- The number of a twig is as wide as its field. -/
lemma age_keeps : (FieldKind.value (.refined age) false).Keeps "Twig"
    ⟨3, "age", .int, .int, none, {}⟩ (.value (some (.int 5))) := by
  intro _ width hwidth w hwrite
  cases hwidth
  cases hwrite
  rfl

/-- A zero as a key is written as a null, which is read back as a key. -/
lemma odd_returns (limits : Limits) : (ElementKind.refined odd).Returns limits (.int 0) :=
  ⟨.single rfl, Nat.zero_le _, ⟨.int 0, rfl⟩, fun hdeep => absurd rfl hdeep⟩

/-- Limits admit an object with a tip and as many sides, if all keys are zeros. -/
lemma twig_admits {limits : Limits} (tip : Option Object) {sides : List (Value × Object)}
    (hcount : sides.length ≤ limits.maxElements) (hkeys : ∀ entry ∈ sides, entry.1 = .int 0) :
    Schema.Admits limits twigSchema (grown tip sides) :=
  forall_twig_entries (fun entry kind m => kind.Keeps "Twig" entry m ∧ kind.Bounds limits m)
    ⟨trivial, trivial⟩
    ⟨trivial, hcount, fun entry hentry => hkeys entry hentry ▸ odd_returns limits⟩
    ⟨age_keeps, trivial⟩

/-- The outermost object and those in it are as their type describes them. -/
lemma branch_describes : branch.Throughout twigs Schema.Describes "Twig" := by
  have hbud : bud.Throughout twigs Schema.Describes "Twig" :=
    twig_throughout (twig_describes _ _) nofun nofun
  have hshoot : shoot.Throughout twigs Schema.Describes "Twig" := by
    refine twig_throughout (twig_describes _ _) (fun o ho => ?_) nofun
    cases ho
    exact hbud
  refine twig_throughout (twig_describes _ _) nofun fun entry hentry => ?_
  cases List.mem_singleton.mp hentry
  exact hshoot

/-- Limits admit the outermost object and those in it if they allow an element. -/
lemma branch_admits {limits : Limits} (hcount : 1 ≤ limits.maxElements) :
    branch.Throughout twigs (Schema.Admits limits) "Twig" := by
  have hbud : bud.Throughout twigs (Schema.Admits limits) "Twig" :=
    twig_throughout (twig_admits _ (Nat.zero_le _) nofun) nofun nofun
  have hshoot : shoot.Throughout twigs (Schema.Admits limits) "Twig" := by
    refine twig_throughout (twig_admits _ (Nat.zero_le _) nofun) (fun o ho => ?_) nofun
    cases ho
    exact hbud
  refine twig_throughout (twig_admits _ hcount fun entry hentry => ?_) nofun
    fun entry hentry => ?_
  all_goals cases List.mem_singleton.mp hentry
  · rfl
  · exact hshoot

end Sample

set_option maxRecDepth 4000 in
/-- Three objects in each other, through a map and a field, are one too many for two levels. Each
has a number of a kind with a meaning of its own, and so has the map for a key. -/
theorem decode_depth_branch :
    Sample.branch.Throughout Sample.twigs Schema.Describes "Twig" ∧
    encode Sample.twigs "Twig" Sample.branch .empty = (.ok [], ⟨Sample.branchFrame⟩) ∧
    Sample.branch.nesting = 3 ∧
    (∀ limits : Limits, 1 ≤ limits.maxElements →
      Sample.branch.Throughout Sample.twigs (Schema.Admits limits) "Twig") ∧
    Sample.branchFrame.size ≤ 8 + 116 ∧
    (∃ r, decode Sample.twigs ⟨2, 1, 116⟩ "Twig" (.ofBytes Sample.branchFrame) =
      .error (.depthExceeded 3 2) r) ∧
    ∃ result r, decode Sample.twigs ⟨3, 1, 116⟩ "Twig" (.ofBytes Sample.branchFrame) =
      .ok result r := by
  have hclean : encode Sample.twigs "Twig" Sample.branch .empty =
      (.ok [], ⟨Sample.branchFrame⟩) := rfl
  have hnesting : Sample.branch.nesting = 3 := by decide
  have hsize : Sample.branchFrame.size ≤ 8 + 116 := by decide
  obtain ⟨-, hread⟩ := decode_depth Sample.branch_describes hclean
  have hadmits : ∀ limits : Limits, 1 ≤ limits.maxElements →
      Sample.branch.Throughout Sample.twigs (Schema.Admits limits) "Twig" :=
    fun _ hcount => Sample.branch_admits hcount
  refine ⟨Sample.branch_describes, hclean, hnesting, hadmits, hsize, ?_, ?_⟩
  · exact (hread ⟨2, 1, 116⟩ (hadmits _ (Nat.le_refl 1)) hsize).1 (by rw [hnesting]; decide)
  · exact (hread ⟨3, 1, 116⟩ (hadmits _ (Nat.le_refl 1)) hsize).2 (Nat.le_of_eq hnesting)

end TaggedParcel
