import Mathlib.Algebra.Group.Nat.Defs
import Mathlib.Data.List.Forall2
import Mathlib.Order.Bounds.Basic
import TaggedParcel.Inspect.Report
import TaggedParcel.Proofs.Frame.Tiling

set_option relaxedAutoImplicit false
set_option autoImplicit false

/-!
# Reports are faithful to the bytes

A report is made from the layout that a scan finds, by three walks over it: one that copies the
tree, one that counts its fields and one that measures its depth. What it says is true of the
bytes because the layout tiles them: the headers of all fields, at whatever level, take bytes of
their own, and payloads do not reach beyond the buffer.

## Main definitions

* `LittleEndian.signed` — the number that bytes stand for in two's complement.
* `ObjectLayout.entries` — the fields of an object at all levels.
* `ObjectLayout.Holds` — an object has a field with another one in it.
* `ObjectSummary.Shows`, `FieldSummary.Shows` — summaries that tell what lies in the bytes.

## Main results

* `ObjectLayout.Tiles.entries_room` — every field takes a word of its own.
* `ObjectSummary.ofLayout_shows` — the summary of a layout that tiles the bytes shows them.
* `ObjectSummary.fieldCount_ofLayout` — a summary counts the fields at all levels.
* `ObjectSummary.depth_isGreatest` — a summary is as deep as objects nest.
* `InspectReport.ofBytes_faithful` — reports are faithful.
-/

namespace TaggedParcel

/-- The number that bytes stand for in two's complement, least significant byte first. -/
def LittleEndian.signed (bs : List UInt8) : Int :=
  if 2 * value bs < modulus bs.length then value bs else value bs - modulus bs.length

mutual

/-- The fields of an object and of the objects inside it, a field in front of those inside it. -/
def ObjectLayout.entries : ObjectLayout → List FieldLayout
  | ⟨_, _, _, fields⟩ => FieldLayout.allEntries fields

/-- The fields of an object that there may be. -/
def ObjectLayout.entries? : Option ObjectLayout → List FieldLayout
  | none => []
  | some layout => layout.entries

/-- Some fields, and those of the objects inside them. -/
def FieldLayout.allEntries : List FieldLayout → List FieldLayout
  | [] => []
  | ⟨id, offset, payloadOffset, size, format, nested⟩ :: rest =>
    ⟨id, offset, payloadOffset, size, format, nested⟩ ::
      (ObjectLayout.entries? nested ++ FieldLayout.allEntries rest)

end

/-- An object lies in a field of another one. -/
def ObjectLayout.Holds (outer inner : ObjectLayout) : Prop :=
  ∃ field ∈ outer.fields, field.nested = some inner

mutual

/-- A summary that shows where an object lies, and its fields one by one. -/
inductive ObjectSummary.Shows (bytes : Array UInt8) : ObjectSummary → ObjectLayout → Prop where
  | intro {summary : ObjectSummary} {layout : ObjectLayout}
    (hoffset : summary.offset = layout.offset)
    (hsize : summary.size = layout.size)
    (hfields : List.Forall₂ (FieldSummary.Shows bytes) summary.fields layout.fields) :
    ObjectSummary.Shows bytes summary layout

/-- A summary that shows where a field lies, the number in its payload if this is a word or two
behind a header that says so itself, and the object in it if there is one. -/
inductive FieldSummary.Shows (bytes : Array UInt8) : FieldSummary → FieldLayout → Prop where
  | intro {summary : FieldSummary} {field : FieldLayout}
    (hid : summary.id = field.id)
    (hoffset : summary.offset = field.offset)
    (hsize : summary.size = field.size)
    (hformat : summary.format = field.format)
    (hinside : field.payloadOffset + field.size ≤ bytes.size)
    (hscalar : ∀ n, summary.scalar = some n ↔ field.format = .fixed ∧
      (field.size = 4 ∨ field.size = 8) ∧ n = LittleEndian.signed (field.payload bytes))
    (hnested : Option.Rel (ObjectSummary.Shows bytes) summary.nested field.nested) :
    FieldSummary.Shows bytes summary field

end

/-! ## Numbers in payloads -/

namespace LittleEndian

/-- A number of so many bytes is less than this power of two. -/
lemma modulus_eq (width : Nat) : modulus width = 2 ^ (8 * width) := by
  induction width with
  | zero => rfl
  | succ width ih =>
    rw [modulus, ih, Nat.mul_succ, Nat.add_comm, Nat.pow_add]

/-- The bits of a number, read as a signed one, are the signed number of its bytes. -/
lemma toInt_ofNat_value (bs : List UInt8) :
    (BitVec.ofNat (8 * bs.length) (value bs)).toInt = signed bs := by
  have hlt := value_lt bs
  rw [modulus_eq] at hlt
  rw [BitVec.toInt_eq_toNat_cond, BitVec.toNat_ofNat, Nat.mod_eq_of_lt hlt, signed, modulus_eq]

end LittleEndian

/-- One or two words are a number, and nothing else is. -/
lemma scalarOf?_eq_some {payload : List UInt8} {n : Int} :
    scalarOf? payload = some n ↔
      (payload.length = 4 ∨ payload.length = 8) ∧ n = LittleEndian.signed payload := by
  unfold scalarOf?
  dsimp only
  split
  · rename_i hfour
    have hword := LittleEndian.toInt_ofNat_value payload
    rw [hfour] at hword
    rw [← hword]
    simp only [hfour, Option.some_inj, true_or, true_and]
    exact eq_comm
  · split
    · rename_i height
      have hword := LittleEndian.toInt_ofNat_value payload
      rw [height] at hword
      rw [← hword]
      simp only [height, Option.some_inj, or_true, true_and]
      exact eq_comm
    · rename_i hfour height
      simp [hfour, height]

/-- A payload inside the buffer is a number if the header holds its size and says one or two
words. -/
lemma fieldScalar?_eq_some {bytes : Array UInt8} {field : FieldLayout}
    (hinside : field.payloadOffset + field.size ≤ bytes.size) {n : Int} :
    fieldScalar? bytes field.format field.payloadOffset field.size = some n ↔
      field.format = .fixed ∧ (field.size = 4 ∨ field.size = 8) ∧
        n = LittleEndian.signed (field.payload bytes) := by
  have hlength : (field.payload bytes).length = field.size := by
    rw [FieldLayout.payload, slice, Array.length_toList, Array.size_extract]
    omega
  have hnumber := @scalarOf?_eq_some (field.payload bytes) n
  rw [hlength] at hnumber
  rw [← hnumber]
  unfold fieldScalar?
  split
  · rename_i hfixed
    exact (and_iff_right hfixed.1).symm
  · rename_i hother
    exact iff_of_false (Option.some_ne_none n).symm fun h => hother ⟨h.1, hinside⟩

/-! ## Room for the fields -/

/-- The entries of an object are those of its fields. -/
lemma ObjectLayout.entries_eq (layout : ObjectLayout) :
    layout.entries = FieldLayout.allEntries layout.fields := by
  cases layout
  rw [entries]

/-- The entries of fields are the first one, those inside it, and those of the others. -/
lemma FieldLayout.allEntries_cons (field : FieldLayout) (rest : List FieldLayout) :
    allEntries (field :: rest) =
      field :: (ObjectLayout.entries? field.nested ++ allEntries rest) := by
  cases field
  rw [allEntries]

namespace FieldLayout.Tile

variable {bytes : Array UInt8} {inside : ObjectLayout → Prop} {stop start : Nat}
  {fields : List FieldLayout}

/-- Fields that fill a range have a word each in it, and so have those inside them. -/
lemma entries_room (h : Tile bytes inside stop start fields)
    (hinside : ∀ object, inside object →
      object.offset + 4 * (object.entries.length + 1) ≤ object.stop) :
    start + 4 * (allEntries fields).length ≤ stop := by
  induction h with
  | nil =>
    rw [allEntries]
    exact Nat.le_refl _
  | @cons start field rest _ hpayload _ _ hnested _ ih =>
    have hwidth : 4 ≤ field.format.width := by
      cases field.format <;> decide
    have hsize : 4 * (ObjectLayout.entries? field.nested).length ≤ field.size := by
      cases hobject : field.nested with
      | none =>
        rw [ObjectLayout.entries?]
        exact Nat.zero_le _
      | some object =>
        obtain ⟨-, hoffset, hstop, hobject⟩ := hnested object hobject
        have hroom := hinside object hobject
        rw [ObjectLayout.entries?]
        omega
    rw [allEntries_cons, List.length_cons, List.length_append]
    omega

/-- The payload of a field that fills a range ends in it. -/
lemma payload_le (h : Tile bytes inside stop start fields) {field : FieldLayout}
    (hfield : field ∈ fields) : field.payloadOffset + field.size ≤ stop := by
  induction h with
  | nil => cases hfield
  | cons _ _ _ _ _ hrest ih =>
    rcases List.mem_cons.mp hfield with rfl | hmem
    · exact hrest.start_le
    · exact ih hmem

/-- An object inside a field is as it has to be, and ends where the field does at the latest. -/
lemma nested_inside (h : Tile bytes inside stop start fields) {field : FieldLayout}
    (hfield : field ∈ fields) {object : ObjectLayout} (hobject : field.nested = some object) :
    object.stop ≤ field.payloadOffset + field.size ∧ inside object := by
  induction h with
  | nil => cases hfield
  | cons _ _ _ _ hnested _ ih =>
    rcases List.mem_cons.mp hfield with rfl | hmem
    · exact (hnested object hobject).2.2
    · exact ih hmem

end FieldLayout.Tile

namespace ObjectLayout.Tiles

variable {bytes : Array UInt8} {maxElements levels : Nat} {layout : ObjectLayout}

/-- In a frame there is a word for its header, and one for each of its fields at all levels. -/
lemma entries_room (h : layout.Tiles bytes maxElements levels) :
    layout.offset + 4 * (layout.entries.length + 1) ≤ layout.stop := by
  induction levels generalizing layout with
  | zero => exact h.elim
  | succ levels ih =>
    obtain ⟨⟨format, -, hstop, -⟩, hfields, -⟩ := h
    have hroom := hfields.entries_room fun object hobject => ih hobject
    have hwidth : 4 ≤ format.width := by
      cases format <;> decide
    rw [entries_eq]
    omega

/-- Frames that lie in one another take a level each. -/
lemma chain_le (h : layout.Tiles bytes maxElements levels) {inner : List ObjectLayout}
    (hchain : (layout :: inner).IsChain Holds) : (layout :: inner).length ≤ levels := by
  induction levels generalizing layout inner with
  | zero => exact h.elim
  | succ levels ih =>
    cases inner with
    | nil => exact Nat.succ_pos levels
    | cons object inner =>
      obtain ⟨⟨field, hfield, hobject⟩, hrest⟩ := List.isChain_cons_cons.mp hchain
      have hinside := (Frames.fields h).nested_inside hfield hobject
      exact Nat.succ_le_succ (ih hinside.2 hrest)

end ObjectLayout.Tiles

/-! ## The tree -/

section OfLayout

variable {bytes : Array UInt8}

/-- A summary of an object is the summary of its fields with the place of the object. -/
lemma ObjectSummary.ofLayout_eq (bytes : Array UInt8) (layout : ObjectLayout) :
    ofLayout bytes layout =
      ⟨layout.offset, layout.size, FieldSummary.ofLayouts bytes layout.fields⟩ := by
  cases layout
  rw [ofLayout]

/-- A summary of a field is its place, its number and the summary of the object inside it. -/
lemma FieldSummary.ofLayout_eq (bytes : Array UInt8) (field : FieldLayout) :
    ofLayout bytes field = ⟨field.id, field.offset, field.size, field.format,
      fieldScalar? bytes field.format field.payloadOffset field.size,
      ObjectSummary.ofLayout? bytes field.nested⟩ := by
  cases field
  rw [ofLayout]

/-- The summaries of fields inside the buffer show them, if those of the objects in them do. -/
lemma FieldSummary.ofLayouts_show {fields : List FieldLayout}
    (hinside : ∀ field ∈ fields, field.payloadOffset + field.size ≤ bytes.size)
    (hnested : ∀ field ∈ fields, ∀ object, field.nested = some object →
      (ObjectSummary.ofLayout bytes object).Shows bytes object) :
    List.Forall₂ (FieldSummary.Shows bytes) (ofLayouts bytes fields) fields := by
  induction fields with
  | nil =>
    rw [ofLayouts]
    exact .nil
  | cons field rest ih =>
    rw [ofLayouts, FieldSummary.ofLayout_eq]
    refine .cons (.intro rfl rfl rfl rfl (hinside field List.mem_cons_self)
      (fun n => fieldScalar?_eq_some (hinside field List.mem_cons_self)) ?_)
      (ih (fun f hf => hinside f (List.mem_cons_of_mem _ hf))
        fun f hf => hnested f (List.mem_cons_of_mem _ hf))
    cases hobject : field.nested with
    | none =>
      rw [ObjectSummary.ofLayout?]
      exact .none
    | some object =>
      rw [ObjectSummary.ofLayout?]
      exact .some (hnested field List.mem_cons_self object hobject)

/-- The summary of a layout that tiles the bytes shows what lies in them.

**Proof sketch.** Induction on the levels of the layout. The fields of a frame end before it does,
and an object inside one of them is a level less. -/
theorem ObjectSummary.ofLayout_shows {maxElements levels : Nat} {layout : ObjectLayout}
    (h : layout.Tiles bytes maxElements levels) (hstop : layout.stop ≤ bytes.size) :
    (ofLayout bytes layout).Shows bytes layout := by
  induction levels generalizing layout with
  | zero => exact h.elim
  | succ levels ih =>
    have hfields := ObjectLayout.Frames.fields h
    have hinside (field : FieldLayout) (hfield : field ∈ layout.fields) :
        field.payloadOffset + field.size ≤ bytes.size :=
      Nat.le_trans (hfields.payload_le hfield) hstop
    rw [ofLayout_eq]
    refine .intro rfl rfl
      (FieldSummary.ofLayouts_show hinside fun field hfield object hobject => ?_)
    obtain ⟨hend, htiles⟩ := hfields.nested_inside hfield hobject
    exact ih htiles (Nat.le_trans hend (hinside field hfield))

mutual

/-- A summary counts the fields of an object at all levels. -/
theorem ObjectSummary.fieldCount_ofLayout (bytes : Array UInt8) (layout : ObjectLayout) :
    (ObjectSummary.ofLayout bytes layout).fieldCount = layout.entries.length := by
  cases layout with
  | mk offset size stop fields =>
    rw [ObjectSummary.ofLayout, ObjectSummary.fieldCount, ObjectLayout.entries]
    exact FieldSummary.countAll_ofLayouts bytes fields

/-- Summaries count fields, and those of the objects inside them. -/
theorem FieldSummary.countAll_ofLayouts (bytes : Array UInt8) (fields : List FieldLayout) :
    FieldSummary.countAll (FieldSummary.ofLayouts bytes fields) =
      (FieldLayout.allEntries fields).length := by
  cases fields with
  | nil =>
    rw [FieldSummary.ofLayouts, FieldSummary.countAll, FieldLayout.allEntries, List.length_nil]
  | cons field rest =>
    have hrest := FieldSummary.countAll_ofLayouts bytes rest
    cases field with
    | mk id offset payloadOffset size format nested =>
      rw [FieldSummary.ofLayouts, FieldSummary.ofLayout, FieldSummary.countAll,
        FieldLayout.allEntries, List.length_cons, List.length_append, hrest]
      cases nested with
      | none =>
        rw [ObjectSummary.ofLayout?, ObjectSummary.fieldCount?, ObjectLayout.entries?,
          List.length_nil]
        omega
      | some object =>
        rw [ObjectSummary.ofLayout?, ObjectSummary.fieldCount?, ObjectLayout.entries?,
          ObjectSummary.fieldCount_ofLayout bytes object]
        omega

end

/-! ## Depth -/

/-- A summary is one deeper than its fields. -/
lemma ObjectSummary.depth_ofLayout (layout : ObjectLayout) :
    (ofLayout bytes layout).depth =
      1 + FieldSummary.maxDepth (FieldSummary.ofLayouts bytes layout.fields) := by
  rw [ofLayout_eq, depth]

/-- The depth of fields is that of the first one or of the others, whichever is greater. -/
lemma FieldSummary.maxDepth_cons (field : FieldLayout) (rest : List FieldLayout) :
    maxDepth (ofLayouts bytes (field :: rest)) =
      max (ObjectSummary.depth? (ObjectSummary.ofLayout? bytes field.nested))
        (maxDepth (ofLayouts bytes rest)) := by
  rw [ofLayouts, FieldSummary.ofLayout_eq, maxDepth]

/-- No object inside some fields is deeper than they say. -/
lemma FieldSummary.depth_le_maxDepth (bytes : Array UInt8) {fields : List FieldLayout}
    {field : FieldLayout} (hfield : field ∈ fields) {object : ObjectLayout}
    (hobject : field.nested = some object) :
    (ObjectSummary.ofLayout bytes object).depth ≤ maxDepth (ofLayouts bytes fields) := by
  induction fields with
  | nil => cases hfield
  | cons first rest ih =>
    rw [maxDepth_cons]
    rcases List.mem_cons.mp hfield with rfl | hmem
    · rw [hobject, ObjectSummary.ofLayout?, ObjectSummary.depth?]
      exact Nat.le_max_left _ _
    · exact Nat.le_trans (ih hmem) (Nat.le_max_right _ _)

/-- Fields with objects inside them are as deep as one of these. -/
lemma FieldSummary.maxDepth_attained (bytes : Array UInt8) (fields : List FieldLayout) :
    maxDepth (ofLayouts bytes fields) = 0 ∨
      ∃ field ∈ fields, ∃ object, field.nested = some object ∧
        (ObjectSummary.ofLayout bytes object).depth = maxDepth (ofLayouts bytes fields) := by
  induction fields with
  | nil =>
    rw [ofLayouts, maxDepth]
    exact .inl rfl
  | cons field rest ih =>
    rw [maxDepth_cons]
    rcases Nat.le_total (ObjectSummary.depth? (ObjectSummary.ofLayout? bytes field.nested))
      (maxDepth (ofLayouts bytes rest)) with hle | hle
    · -- the first field is not deeper than the others
      rw [Nat.max_eq_right hle]
      rcases ih with hzero | ⟨f, hf, object, hobject, hdepth⟩
      · exact .inl hzero
      · exact .inr ⟨f, List.mem_cons_of_mem _ hf, object, hobject, hdepth⟩
    · rw [Nat.max_eq_left hle]
      cases hobject : field.nested with
      | none =>
        rw [ObjectSummary.ofLayout?, ObjectSummary.depth?]
        exact .inl rfl
      | some object =>
        rw [ObjectSummary.ofLayout?, ObjectSummary.depth?]
        exact .inr ⟨field, List.mem_cons_self, object, hobject, rfl⟩

/-- There are objects nested in one another that are as many as the summary is deep. -/
lemma ObjectSummary.exists_chain (bytes : Array UInt8) (layout : ObjectLayout) :
    ∃ inner, (layout :: inner).IsChain ObjectLayout.Holds ∧
      (layout :: inner).length = (ofLayout bytes layout).depth := by
  induction hdepth : (ofLayout bytes layout).depth using Nat.strongRecOn generalizing layout with
  | ind depth ih =>
    rw [depth_ofLayout] at hdepth
    rcases FieldSummary.maxDepth_attained bytes layout.fields with
      hzero | ⟨field, hfield, object, hobject, hmax⟩
    · refine ⟨[], .singleton layout, ?_⟩
      rw [← hdepth, hzero]
      rfl
    · obtain ⟨inner, hchain, hlength⟩ := ih _ (by omega) object hmax
      refine ⟨object :: inner, .cons_cons ⟨field, hfield, hobject⟩ hchain, ?_⟩
      rw [List.length_cons, hlength]
      omega

/-- Objects nested in one another are as many as the summary is deep at most. -/
lemma ObjectSummary.chain_le_depth (bytes : Array UInt8) {layout : ObjectLayout}
    {inner : List ObjectLayout} (hchain : (layout :: inner).IsChain ObjectLayout.Holds) :
    (layout :: inner).length ≤ (ofLayout bytes layout).depth := by
  induction inner generalizing layout with
  | nil =>
    rw [depth_ofLayout, List.length_singleton]
    exact Nat.le_add_right _ _
  | cons object inner ih =>
    obtain ⟨⟨field, hfield, hobject⟩, hrest⟩ := List.isChain_cons_cons.mp hchain
    have hdeep := FieldSummary.depth_le_maxDepth bytes hfield hobject
    have hlength := ih hrest
    rw [depth_ofLayout, List.length_cons]
    omega

/-- A summary is as deep as the longest chain of objects nested in one another is long. -/
theorem ObjectSummary.depth_isGreatest (bytes : Array UInt8) (layout : ObjectLayout) :
    IsGreatest {n | ∃ inner, (layout :: inner).IsChain ObjectLayout.Holds ∧
      (layout :: inner).length = n} (ofLayout bytes layout).depth := by
  refine ⟨exists_chain bytes layout, ?_⟩
  rintro n ⟨inner, hchain, rfl⟩
  exact chain_le_depth bytes hchain

end OfLayout

/-! ## Reports -/

/-- A report is faithful to the bytes: it says how many bytes there are, and how many behind the
object that a scan finds; its tree shows the objects and fields of the scan, with the numbers in
them; it counts the fields at all levels, each of which takes a word besides the header of the
object and the bytes behind it; and its depth is that of the longest chain of objects nested in
one another, which the limit allows.

**Proof sketch.** The layout of the scan tiles the bytes. Along the tiling, the summary shows
each field with a payload inside of the buffer, the headers take bytes of their own, and an object
inside another one is a level less. The count and the depth of the summary are those of the
layout, which is no matter of bytes. -/
theorem InspectReport.ofBytes_faithful {bytes : Array UInt8} (hsize : bytes.size ≤ maxBuffer)
    {limits : Limits} {report : InspectReport} (h : ofBytes bytes limits = .ok report) :
    ∃ layout, ObjectLayout.scan bytes limits = .ok layout ∧
      report.totalBytes = bytes.size ∧
      report.trailingBytes + layout.stop = report.totalBytes ∧
      report.object.Shows bytes layout ∧
      report.fieldCount = layout.entries.length ∧
      4 * report.fieldCount + 4 + report.trailingBytes ≤ report.totalBytes ∧
      IsGreatest {n | ∃ inner, (layout :: inner).IsChain ObjectLayout.Holds ∧
        (layout :: inner).length = n} report.maxDepth ∧
      1 ≤ report.maxDepth ∧ report.maxDepth ≤ limits.maxDepth := by
  unfold ofBytes at h
  cases hscan : ObjectLayout.scan bytes limits with
  | error e =>
    rw [hscan] at h
    cases h
  | ok layout =>
    rw [hscan] at h
    cases h
    obtain ⟨hoffset, hstop, htiles, -⟩ := ObjectLayout.scan_tiles hsize hscan
    have hroom := htiles.entries_room
    have hcount := ObjectSummary.fieldCount_ofLayout bytes layout
    have hdepth := ObjectSummary.depth_isGreatest bytes layout
    refine ⟨layout, rfl, rfl, Nat.sub_add_cancel hstop, ObjectSummary.ofLayout_shows htiles hstop,
      hcount, ?_, hdepth, ?_, ?_⟩
    · dsimp only
      omega
    · dsimp only
      rw [ObjectSummary.depth_ofLayout]
      exact Nat.le_add_right _ _
    · obtain ⟨inner, hchain, hlength⟩ := hdepth.1
      exact hlength ▸ htiles.chain_le hchain

namespace Sample

/-- A frame with a negative number and another frame in it, and two bytes behind it. -/
def numberFrame : Array UInt8 :=
  #[0x45, 0x4F, 32, 0, 1, 0, 4, 0, 0xFB, 0xFF, 0xFF, 0xFF, 2, 0, 0xFF, 0xFF, 16, 0, 0, 0,
    0x45, 0x4F, 0xFF, 0xFF, 8, 0, 0, 0, 3, 0, 4, 0, 9, 0, 0, 0,
    7, 8]

/-- The layout of the inner frame of `numberFrame`. -/
def innerLayout : ObjectLayout :=
  ⟨20, 8, 36, [⟨3, 28, 32, 4, .fixed, none⟩]⟩

/-- The layout of `numberFrame`. -/
def numberLayout : ObjectLayout :=
  ⟨0, 32, 36, [⟨1, 4, 8, 4, .fixed, none⟩, ⟨2, 12, 20, 16, .delimited, some innerLayout⟩]⟩

/-- The report on `numberFrame`. -/
def numberReport : InspectReport :=
  ⟨38, 2, 3, 2, ⟨0, 32, [⟨1, 4, 4, .fixed, some (-5), none⟩,
    ⟨2, 12, 16, .delimited, none, some ⟨20, 8, [⟨3, 28, 4, .fixed, some 9, none⟩]⟩⟩]⟩⟩

open ObjectLayout in
/-- The layout of `numberFrame` is found by a scan with room for two levels and two fields. -/
lemma scan_numberFrame : scan numberFrame ⟨2, 2, 38⟩ = .ok numberLayout := by
  have hnumber : scanField (scanFrame ⟨2, 2, 38⟩ 1) 36 ⟨numberFrame, 4, 36⟩ =
      .ok ⟨1, 4, 8, 4, .fixed, none⟩ ⟨numberFrame, 12, 36⟩ := rfl
  have hinner : scanField (scanFrame ⟨2, 2, 38⟩ 1) 36 ⟨numberFrame, 12, 36⟩ =
      .ok ⟨2, 12, 20, 16, .delimited, some innerLayout⟩ ⟨numberFrame, 36, 36⟩ := rfl
  have hfields : scanFields ⟨2, 2, 38⟩ (scanFrame ⟨2, 2, 38⟩ 1) 36 32 0 [] ⟨numberFrame, 4, 36⟩ =
      .ok numberLayout.fields ⟨numberFrame, 36, 36⟩ := by
    -- the fields one after another, because evaluating both at once takes too long
    refine (scanFields_step (r := ⟨numberFrame, 4, 36⟩) ⟨2, 2, 38⟩ _ 31 [] (by decide)
      (by decide)).trans ?_
    dsimp only
    rw [hnumber]
    refine (scanFields_step (r := ⟨numberFrame, 12, 36⟩) ⟨2, 2, 38⟩ _ 30 _ (by decide)
      (by decide)).trans ?_
    dsimp only
    rw [hinner]
    exact scanFields_end (r := ⟨numberFrame, 36, 36⟩) ⟨2, 2, 38⟩ _ 30 _ _ rfl
  have hwithin : Read.within .buffer 36
      (scanFields ⟨2, 2, 38⟩ (scanFrame ⟨2, 2, 38⟩ 1) 36 32 0 []) ⟨numberFrame, 4, 38⟩ =
        .ok numberLayout.fields ⟨numberFrame, 36, 38⟩ := by
    rw [Read.within, if_neg (by decide), if_neg (by decide), hfields]
  have hheader : Read.objectHeader (.ofBytes numberFrame) = .ok 36 ⟨numberFrame, 4, 38⟩ := rfl
  have hframe : scanFrame ⟨2, 2, 38⟩ 2 (.ofBytes numberFrame) =
      .ok numberLayout ⟨numberFrame, 36, 38⟩ := by
    simp only [scanFrame_eq, hheader, bind_apply, Read.position, Nat.reduceSub, hwithin]
    rfl
  unfold scan
  rw [if_neg (by decide), hframe]

end Sample

/-- The report on the sample, with room for two levels and two fields in each, is faithful. -/
theorem InspectReport.ofBytes_faithful_number :
    Sample.numberFrame.size ≤ maxBuffer ∧
      ofBytes Sample.numberFrame ⟨2, 2, 38⟩ = .ok Sample.numberReport ∧
      ∃ layout, ObjectLayout.scan Sample.numberFrame ⟨2, 2, 38⟩ = .ok layout ∧
        38 = Sample.numberFrame.size ∧ 2 + layout.stop = 38 ∧
        Sample.numberReport.object.Shows Sample.numberFrame layout ∧
        3 = layout.entries.length ∧ 4 * 3 + 4 + 2 ≤ 38 ∧
        IsGreatest {n | ∃ inner, (layout :: inner).IsChain ObjectLayout.Holds ∧
          (layout :: inner).length = n} 2 ∧
        1 ≤ 2 ∧ 2 ≤ 2 := by
  have hsize : Sample.numberFrame.size ≤ maxBuffer := by decide
  have hreport : ofBytes Sample.numberFrame ⟨2, 2, 38⟩ = .ok Sample.numberReport := by
    unfold ofBytes
    rw [Sample.scan_numberFrame]
    rfl
  exact ⟨hsize, hreport, ofBytes_faithful hsize hreport⟩

end TaggedParcel
