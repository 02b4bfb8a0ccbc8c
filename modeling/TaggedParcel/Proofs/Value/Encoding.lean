import TaggedParcel.Proofs.Buffer.Guard
import TaggedParcel.Proofs.Value.Emission

set_option relaxedAutoImplicit false
set_option autoImplicit false

/-!
# The bytes of a generic value

A generic value is encoded by recursion on the value alone: no writer, no bound on nesting and no
failure come in. How deep the value nests is found by the same recursion.

## Main definitions

* `Value.encoding` — the bytes of a value, behind its tag `Value.payload`.
* `Value.depth` — how deep a value nests.
* `Value.children` — the values in a value.
* `Value.Sized` — values all of whose lengths and counts fit a length word.

## Main results

* `Value.encodings_eq`, `Value.pairEncodings_eq`, `Value.entryEncodings_eq` — values in a
  collection are encoded one after another.
* `Value.depthOfItems_le`, `Value.depthOfPairs_le`, `Value.depthOfEntries_le` — how deep the values
  in a collection nest.
* `Value.depth_le_succ` — how deep a value nests, by the values in it.
* `Write.Emits.string16`, `Read.Parses.string16` and their like — payloads with a length.
-/

namespace TaggedParcel

/-! ## Words and payloads with a length -/

/-- The bytes of a signed 32-bit word. -/
def int32Bytes (n : Int32) : List UInt8 :=
  LittleEndian.digits 4 n.toUInt32.toNat

/-- The bytes of a signed 64-bit word. -/
def int64Bytes (n : Int64) : List UInt8 :=
  LittleEndian.digits 8 n.toUInt64.toNat

/-- The bytes of a text. -/
def textBytes (text : String) : List UInt8 :=
  LittleEndian.digits 4 (Write.unitCount text) ++ Write.textBody text

/-- The bytes of a byte array. -/
def arrayBytes (bytes : Array UInt8) : List UInt8 :=
  LittleEndian.digits 4 bytes.size ++ Write.arrayBody bytes

/-- The bytes of the length word that stands for an absent payload. -/
def nullWord : List UInt8 :=
  [0xFF, 0xFF, 0xFF, 0xFF]

/-- The bytes of a handle. -/
def BinderHandle.bytes (h : BinderHandle) : List UInt8 :=
  LittleEndian.digits 4 h.kind.toNat ++ (LittleEndian.digits 4 h.flags.toNat ++
    (LittleEndian.digits 8 h.object.toNat ++ LittleEndian.digits 8 h.cookie.toNat))

namespace Value

mutual

/-- The bytes of a value behind its tag. -/
def payload : Value → List UInt8
  | .null => []
  | .string text => textBytes text
  | .int n => int32Bytes n
  | .map entries => LittleEndian.digits 4 entries.length ++ pairEncodings entries
  | .bundle entries =>
    Write.bundleBytes (LittleEndian.digits 4 entries.length ++ entryEncodings entries)
  | .short n => int32Bytes n.toInt32
  | .long n => int64Bytes n
  | .float x => LittleEndian.digits 4 x.bits.toNat
  | .double x => LittleEndian.digits 8 x.bits.toNat
  | .bool b => int32Bytes (if b then 1 else 0)
  | .list items => LittleEndian.digits 4 items.length ++ encodings items
  | .byteArray bytes => arrayBytes bytes
  | .stringArray items => LittleEndian.digits 4 items.length ++ items.flatMap textBytes
  | .binder handle => handle.bytes
  | .intArray items => LittleEndian.digits 4 items.length ++ items.flatMap int32Bytes
  | .longArray items => LittleEndian.digits 4 items.length ++ items.flatMap int64Bytes
  | .byte n => int32Bytes n.toInt32

/-- The bytes of the items of a list. -/
def encodings : List Value → List UInt8
  | [] => []
  | v :: rest => int32Bytes v.tag.code ++ v.payload ++ encodings rest

/-- The bytes of the entries of a map. -/
def pairEncodings : List (Value × Value) → List UInt8
  | [] => []
  | (k, v) :: rest =>
    int32Bytes k.tag.code ++ k.payload ++ (int32Bytes v.tag.code ++ v.payload) ++
      pairEncodings rest

/-- The bytes of the entries of a bundle. -/
def entryEncodings : List (String × Value) → List UInt8
  | [] => []
  | (key, v) :: rest =>
    textBytes key ++ (int32Bytes v.tag.code ++ v.payload) ++ entryEncodings rest

end

/-- The bytes of a value: its tag and its payload. -/
def encoding (v : Value) : List UInt8 :=
  int32Bytes v.tag.code ++ v.payload

mutual

/-- How deep a value nests: single values not at all, a collection one deeper than the values in
it. -/
def depth : Value → Nat
  | .map entries => depthOfPairs entries + 1
  | .bundle entries => depthOfEntries entries + 1
  | .list items => depthOfItems items + 1
  | _ => 0

/-- How deep the items of a list nest. -/
def depthOfItems : List Value → Nat
  | [] => 0
  | v :: rest => max v.depth (depthOfItems rest)

/-- How deep the entries of a map nest. -/
def depthOfPairs : List (Value × Value) → Nat
  | [] => 0
  | (k, v) :: rest => max (max k.depth v.depth) (depthOfPairs rest)

/-- How deep the entries of a bundle nest. -/
def depthOfEntries : List (String × Value) → Nat
  | [] => 0
  | (_, v) :: rest => max v.depth (depthOfEntries rest)

end

/-- The bytes behind the magic of a bundle. -/
def bundleBody (entries : Bundle) : List UInt8 :=
  LittleEndian.digits 4 entries.length ++ entryEncodings entries

/-- A text with no more units than a length word counts. -/
def TextFits (text : String) : Prop :=
  Write.unitCount text ≤ Write.maxLength

/-- The lengths and counts in the payload of a value fit length words, those in the values in it
left aside. -/
def LengthsFit : Value → Prop
  | .string text => TextFits text
  | .byteArray bytes => bytes.size ≤ Write.maxLength
  | .stringArray items => items.length ≤ Write.maxLength ∧ ∀ text ∈ items, TextFits text
  | .intArray items => items.length ≤ Write.maxLength
  | .longArray items => items.length ≤ Write.maxLength
  | .list items => items.length ≤ Write.maxLength
  | .map entries => entries.length ≤ Write.maxLength
  | .bundle entries =>
    entries.length ≤ Write.maxLength ∧ (∀ entry ∈ entries, TextFits entry.1) ∧
      (bundleBody entries).length ≤ Write.maxLength
  | _ => True

/-- The values in a value. -/
def children : Value → List Value
  | .list items => items
  | .map entries => entries.flatMap fun entry => [entry.1, entry.2]
  | .bundle entries => entries.map Prod.snd
  | _ => []

/-- Values all of whose lengths and counts, at any depth, fit length words. -/
inductive Sized : Value → Prop where
  | mk {v : Value} (h : v.LengthsFit) (hchildren : ∀ child ∈ v.children, Sized child) : Sized v

/-! ## Values in collections -/

/-- Values are encoded one by one. -/
lemma encodings_eq (items : List Value) : encodings items = items.flatMap encoding := by
  induction items with
  | nil => rfl
  | cons v rest ih =>
    rw [encodings, ih]
    rfl

/-- Pairs are encoded one by one, each key in front of its value. -/
lemma pairEncodings_eq (entries : List (Value × Value)) :
    pairEncodings entries = entries.flatMap fun entry => entry.1.encoding ++ entry.2.encoding := by
  induction entries with
  | nil => rfl
  | cons entry rest ih =>
    obtain ⟨k, v⟩ := entry
    rw [pairEncodings, ih]
    rfl

/-- The entries of a bundle are encoded one by one, each text in front of its value. -/
lemma entryEncodings_eq (entries : Bundle) :
    entryEncodings entries =
      entries.flatMap fun entry => textBytes entry.1 ++ entry.2.encoding := by
  induction entries with
  | nil => rfl
  | cons entry rest ih =>
    obtain ⟨key, v⟩ := entry
    rw [entryEncodings, ih]
    rfl

/-- Values nest no deeper than the deepest of them. -/
lemma depthOfItems_le {items : List Value} {n : Nat} :
    depthOfItems items ≤ n ↔ ∀ v ∈ items, v.depth ≤ n := by
  induction items with
  | nil => simp [depthOfItems]
  | cons v rest ih => rw [depthOfItems, Nat.max_le, ih, List.forall_mem_cons]

/-- Pairs nest no deeper than the deepest key or value in them. -/
lemma depthOfPairs_le {entries : List (Value × Value)} {n : Nat} :
    depthOfPairs entries ≤ n ↔ ∀ entry ∈ entries, entry.1.depth ≤ n ∧ entry.2.depth ≤ n := by
  induction entries with
  | nil => simp [depthOfPairs]
  | cons entry rest ih =>
    obtain ⟨k, v⟩ := entry
    rw [depthOfPairs, Nat.max_le, Nat.max_le, ih, List.forall_mem_cons]

/-- The entries of a bundle nest no deeper than the deepest value in them. -/
lemma depthOfEntries_le {entries : Bundle} {n : Nat} :
    depthOfEntries entries ≤ n ↔ ∀ entry ∈ entries, entry.2.depth ≤ n := by
  induction entries with
  | nil => simp [depthOfEntries]
  | cons entry rest ih =>
    obtain ⟨key, v⟩ := entry
    rw [depthOfEntries, Nat.max_le, ih, List.forall_mem_cons]

/-- A value nests no deeper than a level above the values in it. -/
lemma depth_le_succ {v : Value} {n : Nat} :
    v.depth ≤ n + 1 ↔ ∀ child ∈ v.children, child.depth ≤ n := by
  cases v with
  | list items => rw [depth, Nat.succ_le_succ_iff, depthOfItems_le, children]
  | map entries =>
    rw [depth, Nat.succ_le_succ_iff, depthOfPairs_le, children]
    simp only [List.forall_mem_flatMap]
    refine forall₂_congr fun entry _ => ?_
    rw [List.forall_mem_cons, List.forall_mem_singleton]
  | bundle entries =>
    rw [depth, Nat.succ_le_succ_iff, depthOfEntries_le, children]
    simp only [List.forall_mem_map]
  | _ => exact iff_of_true (Nat.zero_le _) fun _ h => nomatch h

end Value

/-! ## Payloads with a length -/

namespace Write.Emits

/-- Steps of the buffer layer inside a payload. -/
lemma lift {write : Write BufferError Unit} {bs : List UInt8} (h : Emits write (.ok bs)) :
    Emits (liftM write : Write FieldError Unit) (.ok bs) :=
  mapError FieldError.buffer h

/-- A length that fits its word. -/
lemma length {count : Nat} (h : count ≤ maxLength) :
    Emits (length count) (.ok (LittleEndian.digits 4 count)) := by
  have hword : (Int32.ofNat count).toUInt32.toNat = count := by
    refine Nat.mod_eq_of_lt ?_
    unfold maxLength at h
    omega
  have hemits : Emits (i32 (Int32.ofNat count) : Write BufferError Unit)
      (.ok (LittleEndian.digits 4 (Int32.ofNat count).toUInt32.toNat)) := raw _
  rw [hword] at hemits
  rw [Write.length, if_pos h]
  exact hemits

/-- A text that fits emits its bytes. -/
lemma string16 {text : String} (h : Value.TextFits text) :
    Emits (string16 text) (.ok (textBytes text)) := by
  rw [string16_eq]
  exact (length h).bind (raw _)

/-- An array of bytes that fits emits its bytes. -/
lemma byteArray {bytes : Array UInt8} (h : bytes.size ≤ maxLength) :
    Emits (byteArray bytes) (.ok (arrayBytes bytes)) := by
  rw [byteArray_eq]
  exact (length h).bind (raw _)

/-- A null emits its word. -/
lemma null {ε : Type} : Emits (null : Write ε Unit) (.ok nullWord) :=
  raw _

/-- A handle emits its bytes. -/
lemma binder {ε : Type} (h : BinderHandle) : Emits (h.write : Write ε Unit) (.ok h.bytes) :=
  (raw _).bind ((raw _).bind ((raw _).bind (raw _)))

end Write.Emits

namespace Read.Parses

/-- A signed 32-bit word. -/
lemma int32 (n : Int32) : Parses Read.i32 (int32Bytes n) n :=
  have hback : Write.ReadsBack (Write.i32 n : Write FieldError Unit) Read.i32 n :=
    Write.ReadsBack.i32 n
  hback.parses (Write.Emits.raw (int32Bytes n)) (by simp [int32Bytes, largestFrame])

/-- A signed 64-bit word. -/
lemma int64 (n : Int64) : Parses Read.i64 (int64Bytes n) n :=
  have hback : Write.ReadsBack (Write.i64 n : Write FieldError Unit) Read.i64 n :=
    Write.ReadsBack.i64 n
  hback.parses (Write.Emits.raw (int64Bytes n)) (by simp [int64Bytes, largestFrame])

/-- A text that fits is read from its bytes. -/
lemma string16 {text : String} (h : Value.TextFits text) :
    Parses Read.string16 (textBytes text) (some text) :=
  ((i32 _).length h).bind (textBody text)

/-- An array of bytes that fits is read from its bytes. -/
lemma byteArray {bytes : Array UInt8} (h : bytes.size ≤ Write.maxLength) :
    Parses Read.byteArray (arrayBytes bytes) (some bytes) :=
  ((i32 _).length h).bind ((arrayBody bytes).map some)

/-- The length of an absent payload. -/
lemma nullLength : Parses Read.length nullWord none := by
  have hword : Parses Read.i32 nullWord (-1) := i32 0xFFFFFFFF
  exact hword.after (pure none)

/-- A null is read as a missing array of bytes. -/
lemma nullArray : Parses Read.byteArray nullWord none :=
  nullLength.after (pure none)

/-- A null is read as a missing text. -/
lemma nullString16 : Parses Read.string16 nullWord none :=
  nullLength.after (pure none)

/-- A payload that must not be null. -/
lemma required {α : Type} {payload : Read BufferError (Option α)} {bs : List UInt8} {a : α}
    (h : Parses payload bs (some a)) : Parses (Read.required payload) bs a :=
  (h.mapError FieldError.buffer).after (pure a)

/-- A count that fits its word and is within the limit. -/
lemma count {limits : Limits} {n : Nat} (hword : n ≤ Write.maxLength)
    (hlimit : n ≤ limits.maxElements) :
    Parses (Read.count limits) (LittleEndian.digits 4 n) (some n) :=
  (((i32 n).length hword).mapError FieldError.buffer).after
    ((checkElements hlimit).after (pure _))

/-- A count within the limits is read from its word. -/
lemma countOrZero {limits : Limits} {n : Nat} (hword : n ≤ Write.maxLength)
    (hlimit : n ≤ limits.maxElements) :
    Parses (Read.countOrZero limits) (LittleEndian.digits 4 n) n :=
  (((i32 n).length hword).mapError FieldError.buffer).after
    ((checkElements hlimit).after (pure _))

end Read.Parses

end TaggedParcel
