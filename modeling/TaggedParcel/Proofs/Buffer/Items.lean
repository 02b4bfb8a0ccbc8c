import TaggedParcel.Proofs.Value.Encoding

set_option relaxedAutoImplicit false
set_option autoImplicit false

/-!
# Reading back a sequence of values

What is written value by value, in any order, is read back by the same sequence of reads, and the
last read ends where the last write did. Each value takes whole words, so that between any two
writes the writer stands at a multiple of four.

## Main definitions

* `Item` — a number, a truth value, a byte array or a text, where the latter two may be absent.
* `ItemKind` — the reads that match them.
* `Item.bytes` — what is written for a value.

## Main results

* `Item.emits`, `Item.parses` — the step: one value is written and read back.
* `Item.emits_each`, `Item.parses_all` — the run: so is a sequence of them.
* `Item.write_read` — sequences that are written into an empty buffer.
-/

namespace TaggedParcel

/-- The kinds of values that a buffer holds. -/
inductive ItemKind where
  | i32
  | u32
  | i64
  | u64
  | float
  | double
  | bool
  | byteArray
  | string16

/-- A value in a buffer. -/
inductive Item where
  | i32 (n : Int32)
  | u32 (n : UInt32)
  | i64 (n : Int64)
  | u64 (n : UInt64)
  | float (x : Binary32)
  | double (x : Binary64)
  | bool (b : Bool)
  | byteArray (bytes? : Option (Array UInt8))
  | string16 (text? : Option String)

/-- The value that is next in a buffer, if it is of this kind. -/
def ItemKind.read : ItemKind → Read BufferError Item
  | .i32 => do return .i32 (← Read.i32)
  | .u32 => do return .u32 (← Read.u32)
  | .i64 => do return .i64 (← Read.i64)
  | .u64 => do return .u64 (← Read.u64)
  | .float => do return .float (← Read.float)
  | .double => do return .double (← Read.double)
  | .bool => do return .bool (← Read.bool)
  | .byteArray => do return .byteArray (← Read.byteArray)
  | .string16 => do return .string16 (← Read.string16)

/-- The values that are next in a buffer, if they are of these kinds. -/
def ItemKind.readAll : List ItemKind → Read BufferError (List Item)
  | [] => pure []
  | kind :: rest => do
    let item ← kind.read
    let items ← readAll rest
    return item :: items

namespace Item

/-- The kind of a value. -/
def kind : Item → ItemKind
  | i32 _ => .i32
  | u32 _ => .u32
  | i64 _ => .i64
  | u64 _ => .u64
  | float _ => .float
  | double _ => .double
  | bool _ => .bool
  | byteArray _ => .byteArray
  | string16 _ => .string16

/-- Writes a value. An absent array or text is the null length. -/
def write : Item → Write BufferError Unit
  | i32 n => Write.i32 n
  | u32 n => Write.u32 n
  | i64 n => Write.i64 n
  | u64 n => Write.u64 n
  | float x => Write.float x
  | double x => Write.double x
  | bool b => Write.bool b
  | byteArray none | string16 none => Write.null
  | byteArray (some bytes) => Write.byteArray bytes
  | string16 (some text) => Write.string16 text

/-- Values whose length, if they have one, fits a length word. The length of a text is the number
of its UTF-16 units. -/
def Fits : Item → Prop
  | byteArray (some bytes) => bytes.size ≤ Write.maxLength
  | string16 (some text) => Write.unitCount text ≤ Write.maxLength
  | _ => True

/-- What is written for a value. -/
def bytes : Item → List UInt8
  | i32 n => int32Bytes n
  | u32 n => LittleEndian.digits 4 n.toNat
  | i64 n => int64Bytes n
  | u64 n => LittleEndian.digits 8 n.toNat
  | float x => LittleEndian.digits 4 x.bits.toNat
  | double x => LittleEndian.digits 8 x.bits.toNat
  | bool b => int32Bytes (if b then 1 else 0)
  | byteArray none | string16 none => nullWord
  | byteArray (some bytes) => arrayBytes bytes
  | string16 (some text) => textBytes text

/-! ## One value -/

/-- A value takes whole words. -/
lemma words (item : Item) : 4 ∣ item.bytes.length := by
  cases item with
  | byteArray bytes? =>
    cases bytes? with
    | none => exact ⟨1, rfl⟩
    | some bytes =>
      rw [Item.bytes, arrayBytes, List.length_append, Write.length_arrayBody,
        LittleEndian.length_digits]
      exact Nat.dvd_add (Nat.dvd_refl 4) (Nat.dvd_mul_left 4 _)
  | string16 text? =>
    cases text? with
    | none => exact ⟨1, rfl⟩
    | some text =>
      rw [Item.bytes, textBytes, List.length_append, Write.length_textBody,
        LittleEndian.length_digits]
      exact Nat.dvd_add (Nat.dvd_refl 4) (Nat.dvd_mul_left 4 _)
  | _ => simp [bytes, int32Bytes, int64Bytes]

/-- An item that fits emits its bytes. -/
lemma emits {item : Item} (h : item.Fits) : Write.Emits item.write (.ok item.bytes) := by
  cases item with
  | byteArray bytes? =>
    cases bytes? with
    | none => exact .null
    | some bytes => exact .byteArray h
  | string16 text? =>
    cases text? with
    | none => exact .null
    | some text => exact .string16 h
  | _ => exact .raw _

/-- An item that fits is read from its bytes. -/
lemma parses {item : Item} (h : item.Fits) : Read.Parses item.kind.read item.bytes item := by
  have hu32 : ∀ n : UInt32, Read.Parses Read.u32 (LittleEndian.digits 4 n.toNat) n := fun n => by
    simpa using Read.Parses.u32 n.toNat
  have hu64 : ∀ n : UInt64, Read.Parses Read.u64 (LittleEndian.digits 8 n.toNat) n := fun n => by
    simpa using Read.Parses.u64 n.toNat
  cases item with
  | i32 n => exact (Read.Parses.int32 n).map Item.i32
  | u32 n => exact (hu32 n).map Item.u32
  | i64 n => exact (Read.Parses.int64 n).map Item.i64
  | u64 n => exact (hu64 n).map Item.u64
  | float x => exact ((hu32 x.bits).map Binary32.mk).map Item.float
  | double x => exact ((hu64 x.bits).map Binary64.mk).map Item.double
  | bool b =>
    have hbool := ((Read.Parses.int32 (if b then 1 else 0)).map fun n => n != 0).map Item.bool
    cases b <;> exact hbool
  | byteArray bytes? =>
    cases bytes? with
    | none => exact Read.Parses.nullArray.map Item.byteArray
    | some bytes => exact (Read.Parses.byteArray h).map Item.byteArray
  | string16 text? =>
    cases text? with
    | none => exact Read.Parses.nullString16.map Item.string16
    | some text => exact (Read.Parses.string16 h).map Item.string16

/-! ## Sequences -/

variable {items : List Item}

/-- Values one behind the other take whole words. -/
lemma words_each (items : List Item) : 4 ∣ (items.flatMap bytes).length := by
  induction items with
  | nil => exact Nat.dvd_zero 4
  | cons item rest ih =>
    rw [List.flatMap_cons, List.length_append]
    exact Nat.dvd_add item.words ih

/-- Items that fit emit their bytes one behind the other. -/
lemma emits_each (hfits : ∀ item ∈ items, item.Fits) :
    Write.Emits (Write.each write items) (.ok (items.flatMap bytes)) := by
  induction items with
  | nil => exact .pure
  | cons item rest ih =>
    rw [List.forall_mem_cons] at hfits
    rw [Write.each_cons, List.flatMap_cons]
    exact (emits hfits.1).bind (ih hfits.2)

/-- Items that fit are read from their bytes one behind the other. -/
lemma parses_all (hfits : ∀ item ∈ items, item.Fits) :
    Read.Parses (ItemKind.readAll (items.map kind)) (items.flatMap bytes) items := by
  induction items with
  | nil => exact .pure []
  | cons item rest ih =>
    rw [List.forall_mem_cons] at hfits
    rw [List.map_cons, List.flatMap_cons]
    exact (parses hfits.1).bind ((ih hfits.2).map fun items => item :: items)

/-- Values that are written into an empty buffer are read back, and reading ends where writing
did, whatever stands behind the values. After each of the writes the writer stands at a multiple of
four.

**Proof sketch.** One value is read back from what it is written as, whatever follows it, and this
is whole words. Induction on the values adds these up. -/
theorem write_read (hfits : ∀ item ∈ items, item.Fits) :
    (∀ front back, items = front ++ back → ∃ w, Write.each write front .empty = .ok () w ∧
      4 ∣ w.position) ∧
    ∃ w, Write.each write items .empty = .ok () w ∧
      ∀ suffix : Array UInt8, w.bytes.size + suffix.size ≤ maxBuffer →
        ItemKind.readAll (items.map kind) (.ofBytes (w.bytes ++ suffix)) =
          .ok items ⟨w.bytes ++ suffix, w.bytes.size, w.bytes.size + suffix.size⟩ := by
  refine ⟨fun front back hitems => ?_, _, emits_each hfits .empty, fun suffix hsize => ?_⟩
  · have hfront : ∀ item ∈ front, item.Fits := fun item hitem =>
      hfits item (hitems ▸ List.mem_append_left back hitem)
    refine ⟨_, emits_each hfront .empty, ?_⟩
    rw [Writer.position_append, show Writer.empty.position = 0 from rfl, Nat.zero_add]
    exact words_each front
  · have hbytes : (Writer.empty.append (items.flatMap bytes)).bytes =
        (items.flatMap bytes).toArray := Writer.append_eq_toArray _
    rw [hbytes, List.size_toArray] at hsize ⊢
    have hsound : (Reader.ofBytes ((items.flatMap bytes).toArray ++ suffix)).Sound :=
      Reader.sound_ofBytes (by rwa [Array.size_append, List.size_toArray])
    rw [parses_all hfits _ hsound (by simp)]
    simp [Reader.advance, Reader.ofBytes]

end Item

namespace Sample

/-- A negative number, the bits of a float that is no number, a text with a zero and with a
character that takes two units, three bytes, and an array and a text that are absent. -/
def mixedItems : List Item :=
  [.i32 (-7), .float ⟨0x7FC00001⟩, .string16 (some "a\x00😀"), .byteArray (some #[1, 2, 3]),
    .byteArray none, .string16 none]

/-- The bytes of the values. -/
def mixedBytes : Array UInt8 :=
  #[0xF9, 0xFF, 0xFF, 0xFF, 1, 0, 0xC0, 0x7F,
    4, 0, 0, 0, 0x61, 0, 0, 0, 0x3D, 0xD8, 0, 0xDE, 0, 0, 0, 0,
    3, 0, 0, 0, 1, 2, 3, 0, 0xFF, 0xFF, 0xFF, 0xFF, 0xFF, 0xFF, 0xFF, 0xFF]

end Sample

/-- Six items of different kinds are read back, and the byte behind them is left. -/
theorem Item.write_read_mixed :
    Write.each Item.write Sample.mixedItems .empty = .ok () ⟨⟨Sample.mixedBytes⟩⟩ ∧
      ItemKind.readAll [.i32, .float, .string16, .byteArray, .byteArray, .string16]
          (.ofBytes (Sample.mixedBytes ++ #[9])) =
        .ok Sample.mixedItems ⟨Sample.mixedBytes ++ #[9], 40, 41⟩ := by
  have hwritten : Write.each Item.write Sample.mixedItems .empty =
      .ok () ⟨⟨Sample.mixedBytes⟩⟩ := rfl
  have hfits : ∀ item ∈ Sample.mixedItems, item.Fits := by
    simp only [Sample.mixedItems, List.forall_mem_cons]
    exact ⟨trivial, trivial, show 4 ≤ 0x7FFFFFFF by decide, show 3 ≤ 0x7FFFFFFF by decide, trivial,
      trivial, by simp⟩
  obtain ⟨-, w, hw, hread⟩ := Item.write_read hfits
  rw [hwritten] at hw
  cases hw
  exact ⟨hwritten, hread #[9] (by decide)⟩

end TaggedParcel
