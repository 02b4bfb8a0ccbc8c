import Mathlib.Data.List.Perm.Subperm
import TaggedParcel.Proofs.Descriptor.Build

set_option relaxedAutoImplicit false
set_option autoImplicit false

/-!
# What is hashed of a descriptor

The bytes that are hashed of a descriptor have no marks at which fields end: everything in them has
a fixed width, or says in front how long it is or whether it is there. So where one part ends and
the next begins can be told from the bytes alone, and two descriptors give the same bytes only if
they are the same in everything that is hashed.

## Main definitions

* `Separates` — pieces of bytes that cannot be confused, whatever comes behind them.
* `FieldDescriptor.Alike` — fields that are the same but for the shapes they declare.
* `TypeDescriptor.TextsFit` — descriptors whose texts have a length that fits its word.

## Main results

* `Separates.append`, `Separates.flatMap` — pieces one behind the other.
* `FieldDescriptor.separates_hashedBytes` — what is hashed of two fields.
* `TypeDescriptor.hashedBytes_eq_iff` — when the same is hashed of two types.
-/

namespace TaggedParcel

/-- Two pieces of bytes that cannot be confused: where a stream begins with either, what the pieces
stand for is the same, and so is what comes behind them. -/
def Separates (bytes bytes' : List UInt8) (same : Prop) : Prop :=
  ∀ rest rest', bytes ++ rest = bytes' ++ rest' → same ∧ rest = rest'

namespace Separates

variable {bytes bytes' next next' : List UInt8} {same same' : Prop}

/-- What two pieces have in common if they are read alike may be weakened. -/
lemma mono (h : Separates bytes bytes' same) (himp : same → same') : Separates bytes bytes' same' :=
  fun rest rest' heq => (h rest rest' heq).imp_left himp

/-- Pieces of one width are told apart by their bytes. -/
lemma of_length_eq (hlength : bytes.length = bytes'.length) (hsame : bytes = bytes' → same) :
    Separates bytes bytes' same := by
  intro rest rest' heq
  obtain ⟨hbytes, hrest⟩ := List.append_inj heq hlength
  exact ⟨hsame hbytes, hrest⟩

/-- What comes next may depend on what the first pieces stand for. -/
lemma append (h : Separates bytes bytes' same) (hnext : same → Separates next next' same') :
    Separates (bytes ++ next) (bytes' ++ next') (same ∧ same') := by
  intro rest rest' heq
  rw [List.append_assoc, List.append_assoc] at heq
  obtain ⟨hsame, htail⟩ := h _ _ heq
  obtain ⟨hsame', hrest⟩ := hnext hsame _ _ htail
  exact ⟨⟨hsame, hsame'⟩, hrest⟩

/-- Digits of numbers that are not too large tell the numbers apart. -/
lemma digits {width n n' : Nat} (hn : n < LittleEndian.modulus width)
    (hn' : n' < LittleEndian.modulus width) :
    Separates (LittleEndian.digits width n) (LittleEndian.digits width n') (n = n') := by
  refine of_length_eq (by simp) fun heq => ?_
  have hvalue := congrArg LittleEndian.value heq
  rwa [LittleEndian.value_digits, LittleEndian.value_digits, Nat.mod_eq_of_lt hn,
    Nat.mod_eq_of_lt hn'] at hvalue

/-- The length in front of a text says where it ends. -/
lemma text {t t' : String} (ht : t.utf8ByteSize < UInt32.size)
    (ht' : t'.utf8ByteSize < UInt32.size) :
    Separates (hashedText t) (hashedText t') (t = t') := by
  have hlength (t : String) : t.toUTF8.data.toList.length = t.utf8ByteSize := rfl
  unfold hashedText
  rw [Nat.min_eq_left (Nat.le_sub_one_of_lt ht), Nat.min_eq_left (Nat.le_sub_one_of_lt ht')]
  refine ((digits ht ht').append fun hsize => ?_).mono And.right
  refine of_length_eq ((hlength t).trans (hsize.trans (hlength t').symm)) fun hbytes => ?_
  exact String.toByteArray_inj.mp (ByteArray.ext (Array.toList_inj.mp hbytes))

/-- The mark in front of an optional part says whether it is there. -/
lemma option {α : Type} {part : α → List UInt8} {o o' : Option α}
    (h : ∀ a ∈ o, ∀ a' ∈ o', Separates (part a) (part a') (a = a')) :
    Separates (hashedOption part o) (hashedOption part o') (o = o') := by
  intro rest rest' heq
  cases o with
  | none =>
    cases o' with
    | none => exact ⟨rfl, List.tail_eq_of_cons_eq heq⟩
    | some a' => exact absurd (List.head_eq_of_cons_eq heq) (by decide)
  | some a =>
    cases o' with
    | none => exact absurd (List.head_eq_of_cons_eq heq) (by decide)
    | some a' =>
      obtain ⟨hsame, hrest⟩ := h a rfl a' rfl rest rest' (List.tail_eq_of_cons_eq heq)
      exact ⟨congrArg some hsame, hrest⟩

/-- Equally many pieces one behind the other are told apart one by one. -/
lemma flatMap {α : Type} {part : α → List UInt8} {same : α → α → Prop} {items items' : List α}
    (hlength : items.length = items'.length)
    (h : ∀ a ∈ items, ∀ a' ∈ items', Separates (part a) (part a') (same a a')) :
    Separates (items.flatMap part) (items'.flatMap part) (List.Forall₂ same items items') := by
  induction items generalizing items' with
  | nil =>
    cases List.length_eq_zero_iff.mp hlength.symm
    exact of_length_eq rfl fun _ => .nil
  | cons a items ih =>
    cases items' with
    | nil => cases hlength
    | cons a' items' =>
      rw [List.flatMap_cons, List.flatMap_cons]
      have hitems := ih (Nat.succ.inj hlength) fun b hb b' hb' =>
        h b (List.mem_cons_of_mem _ hb) b' (List.mem_cons_of_mem _ hb')
      exact ((h a List.mem_cons_self a' List.mem_cons_self).append fun _ => hitems).mono
        fun hsame => .cons hsame.1 hsame.2

end Separates

/-! ## Fields -/

/-- The number of a kind is its own. -/
lemma Semantic.code_inj {layout layout' : Semantic} (h : layout.code = layout'.code) :
    layout = layout' := by
  have hlt (layout : Semantic) : layout.ctorIdx < 256 := by cases layout <;> decide
  have hnat := congrArg UInt8.toNat h
  unfold code at hnat
  rw [UInt8.toNat_ofNat_of_lt' (hlt layout), UInt8.toNat_ofNat_of_lt' (hlt layout')] at hnat
  rw [← Semantic.ofNat_ctorIdx layout, hnat, Semantic.ofNat_ctorIdx]

/-- Each option that is true or false has a bit of its own. -/
lemma FieldOptions.flagBits_inj {options options' : FieldOptions}
    (h : options.flagBits = options'.flagBits) :
    options.nullable = options'.nullable ∧ options.directEncoding = options'.directEncoding ∧
      options.directList = options'.directList := by
  have hbits : ∀ a b c a' b' c' : Bool,
      a.toUInt8 ||| (b.toUInt8 <<< 1) ||| (c.toUInt8 <<< 2) =
        a'.toUInt8 ||| (b'.toUInt8 <<< 1) ||| (c'.toUInt8 <<< 2) →
      a = a' ∧ b = b' ∧ c = c' := by decide
  exact hbits _ _ _ _ _ _ h

namespace FieldDescriptor

/-- Two fields that are the same but for the shapes they declare. -/
structure Alike (a b : FieldDescriptor) : Prop where
  id : a.id = b.id
  name : a.name = b.name
  semantic : a.semantic = b.semantic
  nullable : a.options.nullable = b.options.nullable
  directEncoding : a.options.directEncoding = b.options.directEncoding
  directList : a.options.directList = b.options.directList
  versionGate : a.options.versionGate = b.options.versionGate
  elementHint : a.elementHint = b.elementHint

/-- A field whose texts have a length that fits its word. -/
structure TextsFit (field : FieldDescriptor) : Prop where
  name : field.name.utf8ByteSize < UInt32.size
  hint : ∀ type ∈ field.elementHint, type.utf8ByteSize < UInt32.size

/-- The same is hashed of fields that are the same. -/
lemma Alike.hashedBytes_eq {a b : FieldDescriptor} (h : a.Alike b) :
    a.hashedBytes = b.hashedBytes := by
  unfold hashedBytes FieldOptions.flagBits
  rw [h.id, h.name, h.semantic, h.nullable, h.directEncoding, h.directList, h.versionGate,
    h.elementHint]

/-- Fields that are alike give the same bytes. -/
lemma flatMap_hashedBytes_eq {fields fields' : List FieldDescriptor}
    (h : List.Forall₂ Alike fields fields') :
    fields.flatMap hashedBytes = fields'.flatMap hashedBytes := by
  induction h with
  | nil => rfl
  | cons hfield _ ih => rw [List.flatMap_cons, List.flatMap_cons, hfield.hashedBytes_eq, ih]

/-- What is hashed of two fields cannot be confused unless they are the same. -/
lemma separates_hashedBytes {a b : FieldDescriptor} (ha : a.TextsFit) (hb : b.TextsFit) :
    Separates a.hashedBytes b.hashedBytes (a.Alike b) := by
  have hid : Separates (LittleEndian.digits 2 a.id.toNat) (LittleEndian.digits 2 b.id.toNat)
      (a.id.toNat = b.id.toNat) := .digits a.id.toNat_lt b.id.toNat_lt
  have hkind : Separates [a.semantic.code, a.options.flagBits] [b.semantic.code, b.options.flagBits]
      (a.semantic.code = b.semantic.code ∧ a.options.flagBits = b.options.flagBits) :=
    .of_length_eq rfl fun heq => by simpa using heq
  have hgate : Separates
      (hashedOption (fun gate => LittleEndian.digits 8 gate.toUInt64.toNat) a.options.versionGate)
      (hashedOption (fun gate => LittleEndian.digits 8 gate.toUInt64.toNat) b.options.versionGate)
      (a.options.versionGate = b.options.versionGate) := by
    refine .option fun gate _ gate' _ => ?_
    refine (Separates.digits gate.toUInt64.toNat_lt gate'.toUInt64.toNat_lt).mono fun hnat => ?_
    rw [← gate.toInt64_toUInt64, UInt64.toNat_inj.mp hnat, gate'.toInt64_toUInt64]
  have hhint : Separates (hashedOption hashedText a.elementHint)
      (hashedOption hashedText b.elementHint) (a.elementHint = b.elementHint) :=
    .option fun type htype type' htype' => .text (ha.hint type htype) (hb.hint type' htype')
  have hall := (((hid.append fun _ => .text ha.name hb.name).append fun _ => hkind).append
    fun _ => hgate).append fun _ => hhint
  refine hall.mono fun ⟨⟨⟨⟨hid, hname⟩, hcode, hflags⟩, hgate⟩, hhint⟩ => ?_
  obtain ⟨hnullable, hencoding, hlist⟩ := FieldOptions.flagBits_inj hflags
  exact ⟨UInt16.toNat_inj.mp hid, hname, Semantic.code_inj hcode, hnullable, hencoding, hlist,
    hgate, hhint⟩

end FieldDescriptor

/-! ## Types -/

namespace TypeDescriptor

/-- A descriptor that was built, of whatever items. -/
def Built (d : TypeDescriptor) : Prop :=
  ∃ name constructible items, build name constructible items = .ok d

/-- A descriptor whose texts have a length that fits its word. -/
structure TextsFit (d : TypeDescriptor) : Prop where
  name : d.name.utf8ByteSize < UInt32.size
  fields : ∀ field ∈ d.fields, field.TextsFit

/-- The fields of a built descriptor can be counted in a word, as there are fewer ids. -/
lemma Built.length_lt {d : TypeDescriptor} (h : d.Built) : d.fields.length < UInt32.size := by
  obtain ⟨name, constructible, items, hbuild⟩ := h
  obtain ⟨fields, rfl, hperm, -, hsound⟩ := build_ok hbuild
  have hnodup : (fields.map fun field => field.id.toNat).Nodup := by
    have hids := (hsound.of_perm hperm).nodup.map fun _ _ => UInt16.toNat_inj.mp
    rwa [List.map_map] at hids
  have hrange : (fields.map fun field => field.id.toNat) ⊆ List.range UInt16.size := by
    intro n hn
    obtain ⟨field, -, rfl⟩ := List.mem_map.mp hn
    exact List.mem_range.mpr field.id.toNat_lt
  have hle := (List.subperm_of_subset hnodup hrange).length_le
  rw [List.length_map, List.length_range] at hle
  exact Nat.lt_of_le_of_lt hle (by decide)

/-- The same is hashed of types that are the same. -/
lemma hashedBytes_eq_of_alike {a b : TypeDescriptor} (hname : a.name = b.name)
    (hfields : List.Forall₂ FieldDescriptor.Alike a.fields b.fields) :
    a.hashedBytes = b.hashedBytes := by
  unfold hashedBytes
  rw [hname, hfields.length_eq, FieldDescriptor.flatMap_hashedBytes_eq hfields]

/-- What is hashed of two built types cannot be confused unless they are the same. -/
lemma separates_hashedBytes {a b : TypeDescriptor} (ha : a.Built) (hb : b.Built)
    (hatexts : a.TextsFit) (hbtexts : b.TextsFit) :
    Separates a.hashedBytes b.hashedBytes
      (a.name = b.name ∧ List.Forall₂ FieldDescriptor.Alike a.fields b.fields) := by
  have hcount : Separates
      (LittleEndian.digits 4 (min a.fields.length (UInt32.size - 1)))
      (LittleEndian.digits 4 (min b.fields.length (UInt32.size - 1)))
      (a.fields.length = b.fields.length) := by
    rw [Nat.min_eq_left (Nat.le_sub_one_of_lt ha.length_lt),
      Nat.min_eq_left (Nat.le_sub_one_of_lt hb.length_lt)]
    exact .digits ha.length_lt hb.length_lt
  have hall := ((Separates.text hatexts.name hbtexts.name).append fun _ => hcount).append
    fun hsame => .flatMap hsame.2 fun field hfield field' hfield' =>
      FieldDescriptor.separates_hashedBytes (hatexts.fields field hfield)
        (hbtexts.fields field' hfield')
  exact hall.mono fun hsame => ⟨hsame.1.1, hsame.2⟩

/-- The same is hashed of two built types exactly if they have the same name and, in the order of
their ids, the same fields, but for the shapes that these declare.

**Proof sketch.** What is hashed is a text, a count and the fields one behind the other. Each part
of it has a fixed width, or its length or a mark of its presence in front, so that it ends at the
same place in both streams, and the parts behind it can be compared. The count is exact because
there are fewer ids than numbers for it. -/
theorem hashedBytes_eq_iff {a b : TypeDescriptor} (ha : a.Built) (hb : b.Built)
    (hatexts : a.TextsFit) (hbtexts : b.TextsFit) :
    a.hashedBytes = b.hashedBytes ↔
      a.name = b.name ∧ List.Forall₂ FieldDescriptor.Alike a.fields b.fields := by
  constructor
  · intro hbytes
    have hstream : a.hashedBytes ++ [] = b.hashedBytes ++ [] := congrArg (· ++ []) hbytes
    exact (separates_hashedBytes ha hb hatexts hbtexts [] [] hstream).1
  · rintro ⟨hname, hfields⟩
    exact hashedBytes_eq_of_alike hname hfields

end TypeDescriptor

namespace Sample

/-- A type with one field, a list of generic values. -/
def listType (element : Shape) (options : FieldOptions) : TypeDescriptor :=
  ⟨"Bag", [⟨1, "items", .list, .list element, none, options⟩], false⟩

end Sample

namespace TypeDescriptor

/-- The elements that a list of generic values declares are not hashed, but a version gate is, be it
zero. -/
theorem hashedBytes_eq_iff_lists :
    (Sample.listType .int {}).Built ∧ (Sample.listType .long {}).Built ∧
      (Sample.listType .int { versionGate := some 0 }).Built ∧
      (Sample.listType .int {}).hashedBytes = (Sample.listType .long {}).hashedBytes ∧
      (Sample.listType .int {}).hashedBytes ≠
        (Sample.listType .int { versionGate := some 0 }).hashedBytes := by
  have hbuilt (element : Shape) (options : FieldOptions) :
      (Sample.listType element options).Built :=
    ⟨"Bag", false, [.own ⟨1, "items", .list, .list element, none, options⟩], rfl⟩
  have hfit (element : Shape) (options : FieldOptions) :
      (Sample.listType element options).TextsFit :=
    ⟨(by decide : "Bag".utf8ByteSize < UInt32.size),
      List.forall_mem_singleton.mpr ⟨(by decide : "items".utf8ByteSize < UInt32.size), nofun⟩⟩
  refine ⟨hbuilt _ _, hbuilt _ _, hbuilt _ _, ?_, fun heq => ?_⟩
  · exact (hashedBytes_eq_iff (hbuilt _ _) (hbuilt _ _) (hfit _ _) (hfit _ _)).mpr
      ⟨rfl, .cons ⟨rfl, rfl, rfl, rfl, rfl, rfl, rfl, rfl⟩ .nil⟩
  · obtain ⟨-, hfields⟩ :=
      (hashedBytes_eq_iff (hbuilt _ _) (hbuilt _ _) (hfit _ _) (hfit _ _)).mp heq
    cases hfields with
    | cons hfield _ => cases hfield.versionGate

end TypeDescriptor

end TaggedParcel
