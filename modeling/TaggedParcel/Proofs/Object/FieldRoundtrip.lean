import TaggedParcel.Proofs.Frame.Roundtrip
import TaggedParcel.Proofs.Object.Pairing
import TaggedParcel.Proofs.Schema.Payload

set_option relaxedAutoImplicit false
set_option autoImplicit false

/-!
# Reading back fields

A field is a header and a payload. Where a field is written, its member is read from the payload
of the size that the header says. Only a field of fixed width without a value is not written.

## Main definitions

* `Member.objects` — the objects in a member.
* `FieldKind.Holds` — the members that a field of a kind can have.
* `Encode.WritesField` — a computation that writes a field from which a member is read.
* `Encode.MemberReadsBack` — a member that is read back from its field.
* `Encode.WritesMember` — a member that is read back from its field, or is without one.

## Main results

* `Encode.delimited_writes`, `Encode.fixed_writes`, `Encode.null_writes` — the three ways to write
  a field.
* `Encode.field_writes` — every member that a field can have is written.
-/

namespace TaggedParcel

/-- The objects in a member. -/
def Member.objects : Member → List Object
  | .object (some o) => [o]
  | .objectArray items => items.filterMap id
  | .objectList items => items
  | .objectMap entries => entries.map Prod.snd
  | _ => []

/-- The members that a field of a kind can have, so that a reader accepts them. Of the objects in
a member nothing is asked. -/
def FieldKind.Holds (env : Environment) (limits : Limits) : FieldKind → Member → Prop
  | .value kind _, .value (some v) => kind = .plain v.kind ∧ v.Fits limits
  | .value _ optional, .value none => optional = true
  | .list element, .list items =>
    items.length ≤ limits.maxElements ∧ ∀ v ∈ items, element.Holds limits v
  | .map k v, .map entries =>
    entries.length ≤ limits.maxElements ∧ Sorted.Ascending Value.compareKeys entries ∧
      ∀ entry ∈ entries, k.Holds limits entry.1 ∧ v.Holds limits entry.2
  | .object _, .object _ => True
  | .objectArray _, .objectArray items => items.length ≤ limits.maxElements
  | .objectList _, .objectList items => items.length ≤ limits.maxElements
  | .objectMap k _, .objectMap entries =>
    entries.length ≤ limits.maxElements ∧ Sorted.Ascending Value.compareKeys entries ∧
      ∀ entry ∈ entries, k.Holds limits entry.1
  | .interface proxy, .interface handle =>
    ∀ h ∈ handle, ∃ i, env.interfaces.resolve? proxy h = some i ∧ i.handle = h
  | _, _ => False

namespace Encode

/-- A computation that, where it succeeds and reports nothing, appends a field with an id: a
header, and a payload of the size that the header says, from which a member is read. -/
def WritesField (write : Encode Unit) (id : UInt16) (read : FieldHeader → Decode Member)
    (m : Member) : Prop :=
  ∀ s s', write s = .ok () s' → s'.events = [] → s.events = [] ∧
    ∃ front payload word format, s'.writer = s.writer.append (front ++ payload) ∧
      Read.Parses Read.headerWords front (word, payload.length, format) ∧
      UInt16.ofNat word.toNat = id ∧
      (payload.length ≤ largestFrame → ∀ header : FieldHeader, header.size = payload.length →
        Decode.Parses (read header) payload m)

/-- A member whose field is written so that the member is read back. -/
def MemberReadsBack (env : Environment) (nested : ObjectWriter) (reader : ObjectReader)
    (type : String) (entry : FieldDescriptor) (kind : FieldKind) (m : Member) : Prop :=
  WritesField (field env nested type entry kind m) entry.id
    (fun header => Decode.member env .standard reader type header entry kind) m

/-- A member that is written: it is without a value, of fixed width, and nothing is written, or
it is read back from its field. -/
def WritesMember (env : Environment) (nested : ObjectWriter) (reader : ObjectReader)
    (type : String) (entry : FieldDescriptor) (kind : FieldKind) (m : Member) : Prop :=
  (m = .value none ∧ entry.semantic.isFixed ∧
    ∀ s s', field env nested type entry kind m s = .ok () s' → s' = s) ∨
  MemberReadsBack env nested reader type entry kind m

variable {id : UInt16} {read : FieldHeader → Decode Member} {m : Member}

/-- A field whose size is known once its payload is written. -/
lemma delimited_writes {α : Type} {body : Encode Unit} {reader : Decode α} {a : α}
    (hbody : ReadsBack body reader a) (hneeds : Decode.NeedsBytes reader)
    (hread : ∀ (header : FieldHeader) (bs : List UInt8), ¬ header.isNull →
      Decode.Parses reader bs a → Decode.Parses (read header) bs m) :
    WritesField (delimited id body) id read m := by
  intro s s' hrun hclean
  have hextent : (body >>= fun _ => closeExtent CodecError.ofFrame FrameError.buffer
      ⟨(s.writer.append (LittleEndian.digits 4 (escapedWord id).toNat)).position⟩)
      ⟨(s.writer.append (LittleEndian.digits 4 (escapedWord id).toNat)).append
        (LittleEndian.digits 4 0), s.events⟩ = .ok () s' := hrun
  obtain ⟨hclean₀, bs, hbs, hlt, hparses⟩ := extent_ok hbody hextent hclean
  refine ⟨hclean₀, _, bs, _, _, ?_, Read.Parses.delimitedHeader id hlt, escapedWord_id id, ?_⟩
  · rw [hbs, Writer.append_append, List.append_assoc]
  · intro hlength header hsize
    refine hread header bs ?_ (hparses hlength)
    have hne := (hparses hlength).ne_nil hneeds
    rw [FieldHeader.isNull, hsize]
    simpa using hne

/-- A field without a payload. -/
lemma null_writes
    (hread : ∀ header : FieldHeader, header.isNull → Decode.Parses (read header) [] m) :
    WritesField (payload (Write.nullField id)) id read m := by
  intro s s' hrun hclean
  obtain ⟨hstep, hevents⟩ := onWriter_ok hrun
  refine ⟨hevents ▸ hclean, _, [], _, _, ?_, Read.Parses.fixedHeader id (by decide),
    headerWord_id (by decide) id, ?_⟩
  · injection hstep with _ hwriter
    rw [← hwriter, List.append_nil]
    rfl
  · intro _ header hsize
    refine hread header ?_
    rw [FieldHeader.isNull, hsize]
    rfl

/-- A field whose size is known beforehand. -/
lemma fixed_writes {α : Type} {write : Write FieldError Unit} {reader : Read FieldError α} {a : α}
    (hwrite : Write.ReadsBack write reader a) {width : Nat} (hwidth : width < sizeEscape)
    (hlength : ∀ w w', write w = .ok () w' → w'.position = w.position + width)
    (hread : ∀ (header : FieldHeader) (bs : List UInt8), header.size = width →
      Read.Parses reader bs a → Decode.Parses (read header) bs m) :
    WritesField (frame (Write.fieldHeader id width) >>= fun _ => payload write) id read m := by
  intro s s' hrun hclean
  obtain ⟨_, s₁, hheader, hpayload⟩ := bind_ok hrun
  obtain ⟨hheader, hevents₁⟩ := onWriter_ok hheader
  obtain ⟨hpayload, hevents⟩ := onWriter_ok hpayload
  obtain ⟨bs, hbs, hparses⟩ := hwrite _ _ hpayload
  have hword : Write.fieldHeader id width s.writer =
      .ok () (s.writer.append (LittleEndian.digits 4 (headerWord width id).toNat)) := by
    unfold Write.fieldHeader
    rw [if_neg (Nat.not_le.mpr (Nat.lt_trans hwidth (by decide))), if_pos hwidth]
    rfl
  rw [hword] at hheader
  injection hheader with _ hwriter
  have hsize : bs.length = width := by
    have hposition := hlength _ _ hpayload
    rw [hbs, Writer.position_append] at hposition
    omega
  subst hsize
  refine ⟨by rw [← hevents₁, ← hevents, hclean], _, bs, _, _, ?_,
    Read.Parses.fixedHeader id hwidth, headerWord_id (Nat.lt_trans hwidth (by decide)) id, ?_⟩
  · rw [hbs, ← hwriter, Writer.append_append]
  · exact fun hlarge header hsize => hread header bs hsize (hparses hlarge)

end Encode

/-- The width of a field is not zero, and fits the high half of a header word. -/
lemma Semantic.fixedSize_bounds {layout : Semantic} {width : Nat}
    (h : layout.fixedSize = some width) : width ≠ 0 ∧ width < sizeEscape := by
  cases layout <;> cases h <;> decide

namespace Decode

variable {env : Environment} {reader : ObjectReader} {type : String} {header : FieldHeader}
  {entry : FieldDescriptor}

/-- A value that is read from a payload of the right size is the value of the field. -/
lemma single_parses {limits : Limits} {kind : ValueKind} {optional : Bool} {bs : List UInt8}
    {v : FieldValue} (hread : Read.Parses (kind.read type limits) bs (some v))
    (hnull : ¬ header.isNull)
    (hsize : ∀ width, entry.semantic.fixedSize = some width → header.size = width) :
    Read.Parses (single type limits header entry kind optional) bs (some v) := by
  unfold single
  extract_lets ofNull
  rw [if_neg hnull]
  cases hfixed : entry.semantic.fixedSize with
  | none => exact hread.after (Read.Parses.pure _)
  | some width =>
    dsimp only
    rw [if_neg (fun hother => hother (hsize width hfixed))]
    exact hread.after (Read.Parses.pure _)

end Decode

namespace Encode

variable {env : Environment} {nested : ObjectWriter} {reader : ObjectReader} {type : String}
  {entry : FieldDescriptor}

/-- A field with a single value. -/
lemma single_writes {v : FieldValue} {optional : Bool}
    (hlayout : v.kind.shape.resolve entry.options = .ok entry.semantic)
    (hfits : v.Fits .standard) :
    MemberReadsBack env nested reader type entry (.value (.plain v.kind) optional)
      (.value (some v)) := by
  have hvalue : Write.ReadsBack (v.write encodeDepth)
      ((ValueKind.plain v.kind).read type .standard) (some v) := Write.ReadsBack.fieldValue hfits
  have hneeds : Decode.NeedsBytes
      (Decode.payload ((ValueKind.plain v.kind).read type .standard)) := by
    cases v <;> exact ⟨_, _, rfl⟩
  have hmember : ∀ (header : FieldHeader) (bs : List UInt8), ¬ header.isNull →
      (∀ width, entry.semantic.fixedSize = some width → header.size = width) →
      Read.Parses ((ValueKind.plain v.kind).read type .standard) bs (some v) →
      Decode.Parses (Decode.member env .standard reader type header entry
        (.value (.plain v.kind) optional)) bs (.value (some v)) := by
    intro header bs hnull hsize hparses
    exact (Decode.Parses.onReader CodecError.field
      (Decode.single_parses hparses hnull hsize)).map Member.value
  unfold MemberReadsBack field single
  dsimp only
  rw [if_neg (by exact Bool.false_ne_true)]
  cases hwidth : entry.semantic.fixedSize with
  | none =>
    refine delimited_writes (ReadsBack.payload hvalue) hneeds fun header bs hnull hparses => ?_
    refine hmember header bs hnull (fun width hother => ?_) hparses.of_payload
    rw [hwidth] at hother
    cases hother
  | some width =>
    obtain ⟨hzero, hlt⟩ := Semantic.fixedSize_bounds hwidth
    refine fixed_writes hvalue hlt (fun w w' h => FieldValue.length_write hlayout hwidth h)
      fun header bs hsize hparses => ?_
    refine hmember header bs ?_ (fun other hother => ?_) hparses
    · rw [FieldHeader.isNull, hsize]
      simpa using hzero
    · rw [hwidth] at hother
      cases hother
      exact hsize

/-- A field may be without a value if it is nullable. -/
lemma absent_ok {s s' : EncodeState} (h : absent type entry s = .ok () s') :
    (if entry.semantic.isFixed then pure () else payload (Write.nullField entry.id)) s =
      .ok () s' := by
  unfold absent at h
  by_cases hnullable : entry.options.nullable
  · rw [hnullable] at h
    exact h
  · rw [Bool.eq_false_iff.mpr hnullable] at h
    cases h

/-- A field without a value is a field without a payload, unless it is of fixed width. -/
lemma absent_writes {read : FieldHeader → Decode Member} {m : Member}
    (hfixed : ¬ entry.semantic.isFixed)
    (hread : ∀ header : FieldHeader, header.isNull → Decode.Parses (read header) [] m) :
    WritesField (absent type entry) entry.id read m := by
  intro s s' hrun hclean
  have hnull := absent_ok hrun
  rw [if_neg hfixed] at hnull
  exact null_writes hread s s' hnull hclean

/-- A field of fixed width is not written if it is without a value. -/
lemma absent_fixed (hfixed : entry.semantic.isFixed) {s s' : EncodeState}
    (h : absent type entry s = .ok () s') : s' = s := by
  have hnothing := absent_ok h
  rw [if_pos hfixed] at hnothing
  cases hnothing
  rfl

/-- What needs the schema of a type. -/
lemma schema_writes {write : Schema → Encode Unit} {id : UInt16}
    {read : FieldHeader → Decode Member} {m : Member} {inner : String}
    (h : ∀ found, WritesField (write found) id read m) :
    WritesField (schema env inner >>= write) id read m := by
  intro s s' hrun hclean
  obtain ⟨found, -, hwrite⟩ := schema_bind_ok hrun
  exact h found s s' hwrite hclean

/-- A single value that is not there, in a field without a payload. -/
lemma none_writes {kind : ValueKind} {optional : Bool} (hvariable : ¬ entry.semantic.isFixed)
    (hoptional : optional = true) :
    MemberReadsBack env nested reader type entry (.value kind optional) (.value none) := by
  refine absent_writes hvariable fun header hnull => ?_
  have hnone : Read.Parses
      (Decode.single type .standard header entry kind optional) [] none := by
    unfold Decode.single
    rw [if_pos hnull, if_pos hoptional]
    exact Read.Parses.pure none
  exact (Decode.Parses.onReader CodecError.field hnone).map Member.value

/-- A list without objects. -/
lemma list_writes {element : ElementKind} {items : List Value} (hown : element.Own)
    (hlength : items.length ≤ Limits.standard.maxElements)
    (hitems : ∀ v ∈ items, element.Holds .standard v) :
    MemberReadsBack env nested reader type entry (.list element) (.list items) := by
  have hbody := ReadsBack.payload
    (Write.ReadsBack.listPayload hown entry.semantic hlength hitems)
  refine delimited_writes hbody ⟨_, _, rfl⟩ fun header bs hnull hparses => ?_
  simp only [Decode.member, Decode.field]
  rw [if_neg hnull]
  exact hparses.map Member.list

/-- A map without objects, with keys in ascending order. -/
lemma map_writes {k v : ElementKind} {entries : List (Value × Value)} (hkey : k.Own)
    (hvalue : v.Own) (hlength : entries.length ≤ Limits.standard.maxElements)
    (hsorted : Sorted.Ascending Value.compareKeys entries)
    (hentries : ∀ entry ∈ entries, k.Holds .standard entry.1 ∧ v.Holds .standard entry.2) :
    MemberReadsBack env nested reader type entry (.map k v) (.map entries) := by
  have hbody := ReadsBack.payload (Write.ReadsBack.mapPayload hkey hvalue hlength hsorted
    (fun entry hentry => (hentries entry hentry).1)
    (fun entry hentry => (hentries entry hentry).2))
  refine delimited_writes hbody ⟨_, _, rfl⟩ fun header bs hnull hparses => ?_
  simp only [Decode.member, Decode.field]
  rw [if_neg hnull]
  exact hparses.map Member.map

/-- An object, or none in a field without a payload. -/
lemma object_writes {inner : String} {o : Option Object} (hvariable : ¬ entry.semantic.isFixed)
    (h : ∀ found ∈ o, ReadsBack (nested inner found) (reader inner) found)
    (hneeds : Decode.NeedsBytes (reader inner)) :
    MemberReadsBack env nested reader type entry (.object inner) (.object o) := by
  cases o with
  | some o =>
    refine delimited_writes (h o rfl) hneeds fun header bs hnull hparses => ?_
    simp only [Decode.member, Decode.field]
    rw [if_neg hnull]
    exact hparses.map fun o => Member.object (some o)
  | none =>
    refine absent_writes hvariable fun header hnull => ?_
    simp only [Decode.member, Decode.field]
    rw [if_pos hnull]
    exact Decode.Parses.pure _

/-- An array whose objects may be missing. -/
lemma objectArray_writes {inner : String} {items : List (Option Object)}
    (hlength : items.length ≤ Limits.standard.maxElements)
    (h : ∀ item ∈ items, ∀ o ∈ item, ReadsBack (nested inner o) (reader inner) o)
    (hneeds : Decode.NeedsBytes (reader inner)) :
    MemberReadsBack env nested reader type entry (.objectArray inner) (.objectArray items) := by
  have hitem : ∀ item ∈ items,
      ReadsBack (elementOrNull nested inner item) (Decode.element reader inner) item :=
    fun item hitem => ReadsBack.elementOrNull (h item hitem) hneeds
  refine delimited_writes (ReadsBack.collection hlength hitem)
    (Decode.counted_needsBytes _ _) fun header bs hnull hparses => ?_
  simp only [Decode.member, Decode.field, Decode.collection_eq hnull]
  exact hparses.map Member.objectArray

/-- A list of objects, each behind its size or as a generic value. -/
lemma objectList_writes {inner : String} {items : List Object}
    (hlength : items.length ≤ Limits.standard.maxElements)
    (h : ∀ o ∈ items, ReadsBack (nested inner o) (reader inner) o)
    (hneeds : Decode.NeedsBytes (reader inner)) :
    MemberReadsBack env nested reader type entry (.objectList inner) (.objectList items) := by
  have hbody : ReadsBack (objectList env nested entry.semantic inner items)
      (Decode.counted .standard (Decode.required (if entry.semantic = .list then
        Decode.tagged reader inner else Decode.element reader inner))) items := by
    unfold objectList
    refine (ReadsBack.payload (Write.ReadsBack.count hlength)).bind ?_
    by_cases hlist : entry.semantic = .list
    · rw [if_pos hlist, if_pos hlist]
      exact ReadsBack.schema fun found => ReadsBack.each fun o ho =>
        ReadsBack.required ((h o ho).tagged found.name)
    · rw [if_neg hlist, if_neg hlist]
      exact ReadsBack.each fun o ho => ReadsBack.required ((h o ho).element hneeds)
  refine delimited_writes hbody (Decode.counted_needsBytes _ _) fun header bs hnull hparses => ?_
  simp only [Decode.member, Decode.field, Decode.collection_eq hnull]
  exact hparses.map Member.objectList

/-- A map from keys in ascending order to objects. -/
lemma objectMap_writes {k : ElementKind} {inner : String} {entries : List (Value × Object)}
    (hown : k.Own) (hlength : entries.length ≤ Limits.standard.maxElements)
    (hsorted : Sorted.Ascending Value.compareKeys entries)
    (hkeys : ∀ entry ∈ entries, k.Holds .standard entry.1)
    (h : ∀ entry ∈ entries, ReadsBack (nested inner entry.2) (reader inner) entry.2) :
    MemberReadsBack env nested reader type entry (.objectMap k inner) (.objectMap entries) := by
  refine schema_writes fun found => ?_
  have hentry : ∀ entry ∈ entries, ReadsBack
      (payload ((k.toValue entry.1).write 0 encodeDepth) >>= fun _ =>
        tagged nested inner found.name entry.2)
      (Decode.payload (Read.element k .standard) >>= fun key =>
        Decode.required (Decode.tagged reader inner) >>= fun o => pure (key, o)) entry :=
    fun entry hentry =>
      (ReadsBack.payload (Write.ReadsBack.element hown (hkeys entry hentry))).bind
        ((ReadsBack.required ((h entry hentry).tagged found.name)).map (Prod.mk entry.1))
  refine delimited_writes (ReadsBack.collection hlength hentry)
    (Decode.counted_needsBytes _ _) fun header bs hnull hparses => ?_
  simp only [Decode.member, Decode.field, Decode.collection_eq hnull]
  have hmap := hparses.map fun entries =>
    Member.objectMap (Sorted.ofList Value.compareKeys entries)
  rw [Sorted.ofList_ascending Value.compareKeys hsorted] at hmap
  exact hmap

/-- The handle of an interface, or none in a field without a payload. -/
lemma interface_writes {proxy : Proxy} {handle : Option BinderHandle}
    (hvariable : ¬ entry.semantic.isFixed)
    (h : ∀ found ∈ handle, ∃ i, env.interfaces.resolve? proxy found = some i ∧ i.handle = found) :
    MemberReadsBack env nested reader type entry (.interface proxy) (.interface handle) := by
  cases handle with
  | some handle =>
    obtain ⟨i, hresolve, hhandle⟩ := h handle rfl
    have hread : Write.ReadsBack (handle.write : Write FieldError Unit)
        (Decode.interface env proxy) handle := by
      refine (Write.ReadsBack.liftRead (Write.ReadsBack.binder handle)).after ?_
      rw [hresolve]
      dsimp only
      rw [hhandle]
      exact Read.Parses.pure _
    refine delimited_writes (ReadsBack.payload hread) ⟨_, _, rfl⟩ fun header bs hnull hparses => ?_
    simp only [Decode.member, Decode.field]
    rw [if_neg hnull]
    exact hparses.map fun handle => Member.interface (some handle)
  | none =>
    refine absent_writes hvariable fun header hnull => ?_
    simp only [Decode.member, Decode.field]
    rw [if_pos hnull]
    exact Decode.Parses.pure _

/-- Every member that a field can have is written.

**Proof sketch.** One lemma for every kind of field. What is nested in the member is read back by
assumption. -/
theorem field_writes (hneeds : ∀ inner, Decode.NeedsBytes (reader inner)) {kind : FieldKind}
    {m : Member} (hown : kind.Own)
    (hlayout : kind.shape.resolve entry.options = .ok entry.semantic)
    (hholds : kind.Holds env .standard m)
    (hnested : ∀ inner, kind.objectType? = some inner →
      ∀ o ∈ m.objects, ReadsBack (nested inner o) (reader inner) o) :
    WritesMember env nested reader type entry kind m := by
  cases kind with
  | value kind optional =>
    cases m with
    | value v =>
      cases v with
      | some v =>
        obtain ⟨rfl, hfits⟩ := hholds
        exact .inr (single_writes hlayout hfits)
      | none =>
        by_cases hfixed : entry.semantic.isFixed
        · exact .inl ⟨rfl, hfixed, fun s s' h => absent_fixed hfixed h⟩
        · exact .inr (none_writes hfixed hholds)
    | _ => exact hholds.elim
  | list element =>
    cases m with
    | list items => exact .inr (list_writes hown hholds.1 hholds.2)
    | _ => exact hholds.elim
  | map k v =>
    cases m with
    | map entries => exact .inr (map_writes hown.1 hown.2 hholds.1 hholds.2.1 hholds.2.2)
    | _ => exact hholds.elim
  | object inner =>
    cases m with
    | object o =>
      injection hlayout with hlayout
      refine .inr (object_writes (by rw [← hlayout]; exact Bool.false_ne_true)
        (fun found hfound => ?_) (hneeds inner))
      cases hfound
      exact hnested inner rfl found (List.mem_singleton.mpr rfl)
    | _ => exact hholds.elim
  | objectArray inner =>
    cases m with
    | objectArray items =>
      exact .inr (objectArray_writes hholds (fun item hitem o ho =>
        hnested inner rfl o (List.mem_filterMap.mpr ⟨item, hitem, ho⟩)) (hneeds inner))
    | _ => exact hholds.elim
  | objectList inner =>
    cases m with
    | objectList items =>
      exact .inr (objectList_writes hholds (hnested inner rfl) (hneeds inner))
    | _ => exact hholds.elim
  | objectMap k inner =>
    cases m with
    | objectMap entries =>
      exact .inr (objectMap_writes hown hholds.1 hholds.2.1 hholds.2.2 fun entry hentry =>
        hnested inner rfl entry.2 (List.mem_map.mpr ⟨entry, hentry, rfl⟩))
    | _ => exact hholds.elim
  | interface proxy =>
    cases m with
    | interface handle =>
      injection hlayout with hlayout
      exact .inr (interface_writes (by rw [← hlayout]; exact Bool.false_ne_true) hholds)
    | _ => exact hholds.elim

end Encode

end TaggedParcel
