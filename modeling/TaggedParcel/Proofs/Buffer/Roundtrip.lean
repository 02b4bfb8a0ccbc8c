import TaggedParcel.Proofs.Buffer.Locality
import TaggedParcel.Proofs.Text.Utf16
import TaggedParcel.Value.Basic

set_option relaxedAutoImplicit false
set_option autoImplicit false

/-!
# Reading back what was written

A step that writes is paired with a step that reads: where the first one succeeds, it appends
bytes from which the second one reads a certain answer, wherever these bytes come next. Pairs
compose as the steps do. Only a bounded number of bytes has to be read back, so that sizes and
limits are not in reach.

## Main definitions

* `Read.Parses` — a step that reads an answer from some bytes, whatever follows them.
* `Write.ReadsBack` — a step that writes what another one reads.

## Main results

* `Write.ReadsBack.bind`, `Write.ReadsBack.each` — pairs compose.
* `Write.patchSize_ok` — a reserved word gets its value.
* `Write.ReadsBack.byteArray`, `Write.ReadsBack.string16` — payloads with a length.
-/

namespace TaggedParcel

/-- The size of an object with a mebibyte of fields. -/
def largestFrame : Nat :=
  8 + 1048576

namespace Reader

variable {r : Reader} {bs bs' : List UInt8}

/-- Behind the first bytes stand the others. -/
lemma prefix_advance (h : bs ++ bs' <+: r.ahead) :
    bs <+: r.ahead ∧ bs' <+: (r.advance bs.length).ahead := by
  obtain ⟨rest, hrest⟩ := h
  rw [List.append_assoc] at hrest
  refine ⟨⟨_, hrest⟩, ?_⟩
  rw [ahead_advance, ← hrest, List.drop_left]
  exact List.prefix_append _ _

/-- In a window of their length there are some of the bytes ahead, and no others. -/
lemma ahead_narrow_length (hr : r.Sound) (h : bs <+: r.ahead) :
    (r.narrow bs.length).ahead = bs := by
  rw [ahead_narrow hr h.length_le]
  exact (List.prefix_iff_eq_take.mp h).symm

/-- Bytes in front of a reader are in front of the same reader with a limit behind them. -/
lemma prefix_narrow (hr : r.Sound) (h : bs <+: r.ahead) : bs <+: (r.narrow bs.length).ahead := by
  simp only [ahead_narrow_length hr h, List.prefix_rfl]

end Reader

namespace Read

variable {ε ε' α β : Type}

/-- A step that reads an answer from some bytes, whatever follows them. -/
def Parses (read : Read ε α) (bs : List UInt8) (a : α) : Prop :=
  ∀ r : Reader, r.Sound → bs <+: r.ahead → read r = .ok a (r.advance bs.length)

namespace Parses

/-- Answering at once takes no bytes. -/
lemma pure (a : α) : Parses (Pure.pure a : Read ε α) [] a :=
  fun _ _ _ => rfl

/-- What two steps take one after another is what the first takes and what the second takes. -/
lemma bind {read : Read ε α} {next : α → Read ε β} {bs bs' : List UInt8} {a : α} {b : β}
    (h : Parses read bs a) (hnext : Parses (next a) bs' b) :
    Parses (read >>= next) (bs ++ bs') b := by
  intro r hr hboth
  obtain ⟨hfront, hbehind⟩ := Reader.prefix_advance hboth
  rw [bind_apply, h r hr hfront]
  dsimp only
  rw [hnext _ (hr.advance hfront.length_le) hbehind, Reader.advance_advance, List.length_append]

/-- What follows takes no more bytes. -/
lemma after {read : Read ε α} {next : α → Read ε β} {bs : List UInt8} {a : α} {b : β}
    (h : Parses read bs a) (hnext : Parses (next a) [] b) : Parses (read >>= next) bs b := by
  have hbind := h.bind hnext
  rw [List.append_nil] at hbind
  exact hbind

/-- An answer that is changed after it was read. -/
lemma map {read : Read ε α} {bs : List UInt8} {a : α} (f : α → β) (h : Parses read bs a) :
    Parses (read >>= fun a => Pure.pure (f a)) bs (f a) :=
  h.after (pure (f a))

/-- Renaming the failures of a step does not change what it takes. -/
lemma mapError {read : Read ε α} {bs : List UInt8} {a : α} (f : ε → ε') (h : Parses read bs a) :
    Parses (mapError f read) bs a := by
  intro r hr hfront
  simp only [Read.mapError, h r hr hfront]

/-- Padded bytes. -/
lemma takePadded (bs padding : List UInt8) :
    Parses (takePadded bs.length (bs.length + padding.length)) (bs ++ padding) bs.toArray := by
  intro r hr hfront
  obtain ⟨rest, hrest⟩ := hfront
  have hlength : bs.length + padding.length ≤ r.ahead.length := by
    rw [← hrest, List.length_append, List.length_append]
    omega
  rw [takePadded_of_le hr (Nat.le_add_right _ _) hlength, ← hrest, List.append_assoc,
    List.take_left, List.length_append]

/-- A word takes the digits of its number, as far as it is wide. -/
lemma word (width n : Nat) :
    Parses (word width) (LittleEndian.digits width n) (n % LittleEndian.modulus width) := by
  have hraw := takePadded (LittleEndian.digits width n) []
  rw [List.append_nil, LittleEndian.length_digits] at hraw
  have hword := hraw.map fun digits => LittleEndian.value digits.toList
  rw [List.toList_toArray, LittleEndian.value_digits] at hword
  exact hword

/-- A 32-bit word takes four digits. -/
lemma u32 (n : Nat) : Parses u32 (LittleEndian.digits 4 n) (UInt32.ofNat n) := by
  have hword := (word 4 n).map UInt32.ofNat
  have hmod : UInt32.ofNat (n % LittleEndian.modulus 4) = UInt32.ofNat n := UInt32.ofNat_mod_size
  rw [hmod] at hword
  exact hword

/-- A signed 32-bit word takes four digits. -/
lemma i32 (n : Nat) : Parses i32 (LittleEndian.digits 4 n) (Int32.ofNat n) :=
  (u32 n).map UInt32.toInt32

/-- A 64-bit word takes eight digits. -/
lemma u64 (n : Nat) : Parses u64 (LittleEndian.digits 8 n) (UInt64.ofNat n) := by
  have hword := (word 8 n).map UInt64.ofNat
  have hmod : UInt64.ofNat (n % LittleEndian.modulus 8) = UInt64.ofNat n := UInt64.ofNat_mod_size
  rw [hmod] at hword
  exact hword

/-- A length word. -/
lemma length {bs : List UInt8} {n : Nat} (h : Parses Read.i32 bs (Int32.ofNat n))
    (hn : n ≤ Write.maxLength) : Parses Read.length bs (some n) := by
  have hint : (Int32.ofNat n).toInt = n := Int32.toInt_ofNat_of_lt (by
    unfold Write.maxLength at hn
    omega)
  have hnull : Int32.ofNat n ≠ -1 := by
    intro h
    rw [h] at hint
    have hneg : (-1 : Int32).toInt = -1 := rfl
    omega
  have hnegative : ¬ Int32.ofNat n < 0 := by
    intro h
    have hlt := Int32.lt_iff_toInt_lt.mp h
    have hzero : (0 : Int32).toInt = 0 := rfl
    omega
  refine h.after ?_
  rw [if_neg hnull, if_neg hnegative, hint, Int.toNat_natCast]
  exact pure _

/-- A block that reads the whole of its frame. -/
lemma framed (refuse : BufferError → ε) {block : Read ε α} {bs : List UInt8} {a : α}
    (h : Parses block bs a) : Parses (framed refuse bs.length block) bs a := by
  intro r hr hfront
  have hlength := hfront.length_le
  have hlimit := Reader.limit_eq hr
  have hblock := h (r.narrow bs.length) (hr.narrow hlength) (Reader.prefix_narrow hr hfront)
  show (within refuse (r.pos + bs.length) block >>= fun a =>
    Read.mapError refuse (seek (r.pos + bs.length)) >>= fun _ => Pure.pure a) r = _
  rw [bind_apply, within_narrow refuse block hr hlength, hblock]
  dsimp only
  rw [bind_apply]
  simp only [Read.mapError, seek]
  rw [if_neg (by omega)]
  rfl

end Parses

end Read

namespace Writer

variable {w : Writer}

/-- Appending nothing changes nothing. -/
@[simp] lemma append_nil : w.append [] = w := by
  simp [append]

/-- Bytes that are appended one after another are appended at once. -/
@[simp] lemma append_append (bs bs' : List UInt8) :
    (w.append bs).append bs' = w.append (bs ++ bs') := by
  simp only [append, mk.injEq]
  apply ByteArray.ext
  simp only [ByteArray.data_append, List.data_toByteArray, List.append_toArray, Array.append_assoc]

/-- Appending moves the position by the number of bytes. -/
@[simp] lemma position_append (bs : List UInt8) :
    (w.append bs).position = w.position + bs.length := by
  simp only [append, position, ByteArray.size_append, List.size_toByteArray]

/-- The bytes of a buffer, as its array says. -/
@[simp] lemma bytes_mk (buffer : ByteArray) : (mk buffer).bytes = buffer.data := rfl

/-- What is written after appending is what was written before, and the bytes. -/
lemma append_eq_toArray (bs : List UInt8) :
    (w.append bs).bytes = (w.bytes.toList ++ bs).toArray := by
  apply Array.ext'
  simp only [append, bytes, ByteArray.data_append, List.data_toByteArray, Array.toList_append]

end Writer

/-- Bytes that lie inside a buffer are replaced by as many others. -/
lemma overwrite_append (front old new back : List UInt8) (h : old.length = new.length) :
    overwrite ⟨(front ++ (old ++ back)).toArray⟩ front.length new =
      ⟨(front ++ (new ++ back)).toArray⟩ := by
  induction new generalizing front old with
  | nil =>
    rw [List.length_eq_zero_iff.mp h]
    rfl
  | cons b new ih =>
    cases old with
    | nil => cases h
    | cons o old =>
      have hset : ByteArray.set! ⟨(front ++ (o :: old ++ back)).toArray⟩ front.length b =
          ⟨((front ++ [b]) ++ (old ++ back)).toArray⟩ := by
        simp [ByteArray.set!]
      have hrest := ih (front ++ [b]) old (Nat.succ.inj h)
      rw [List.length_append, List.length_singleton] at hrest
      rw [overwrite, hset, hrest]
      simp

namespace Write

variable {ε ε' α β : Type}

/-! ## Reserved words -/

/-- A slot among the written bytes is overwritten with the digits of a number. -/
lemma patch_apply {slot : Slot} {w : Writer} (h : slot.stop ≤ w.position) (n : UInt32) :
    patch slot n w =
      .ok () ⟨overwrite w.buffer slot.offset (LittleEndian.digits 4 n.toNat)⟩ :=
  if_pos h

/-- A reserved word gets its value, if this is a size that it holds; whatever was written before
and behind it stays as it is. -/
lemma patchSize_apply (w : Writer) (bs : List UInt8) (size : Nat) :
    patchSize ⟨w.position⟩ size (w.append (LittleEndian.digits 4 0 ++ bs)) =
      if size < UInt32.size then .ok () (w.append (LittleEndian.digits 4 size ++ bs))
      else .error (.lengthOverflow size) (w.append (LittleEndian.digits 4 0 ++ bs)) := by
  unfold patchSize
  by_cases hsize : size < UInt32.size
  · have hstop : w.position + 4 ≤ (w.append (LittleEndian.digits 4 0 ++ bs)).position := by
      rw [Writer.position_append, List.length_append, LittleEndian.length_digits]
      omega
    have hword : (UInt32.ofNat size).toNat = size := UInt32.toNat_ofNat_of_lt' hsize
    have hover := overwrite_append w.bytes.toList (LittleEndian.digits 4 0)
      (LittleEndian.digits 4 size) bs (by simp)
    rw [Array.length_toList, ← Writer.append_eq_toArray, ← Writer.append_eq_toArray] at hover
    rw [if_pos hsize, if_pos hsize, patch_apply (by exact hstop), hword]
    exact congrArg (fun buffer => EStateM.Result.ok () (Writer.mk buffer)) hover
  · rw [if_neg hsize, if_neg hsize]
    rfl

/-- A reserved word got its value. -/
lemma patchSize_ok {w w' : Writer} {bs : List UInt8} {size : Nat}
    (h : patchSize ⟨w.position⟩ size (w.append (LittleEndian.digits 4 0 ++ bs)) = .ok () w') :
    size < UInt32.size ∧ w' = w.append (LittleEndian.digits 4 size ++ bs) := by
  rw [patchSize_apply] at h
  by_cases hsize : size < UInt32.size
  · rw [if_pos hsize] at h
    cases h
    exact ⟨hsize, rfl⟩
  · rw [if_neg hsize] at h
    cases h

/-- Bytes behind bytes. -/
lemma raw_raw (bs bs' : List UInt8) :
    (raw bs >>= fun _ => raw bs' : Write ε Unit) = raw (bs ++ bs') := by
  funext w
  exact congrArg (EStateM.Result.ok ()) (Writer.append_append bs bs')

/-- An array of bytes is written as the list of its bytes. -/
lemma rawArray_eq (bytes : Array UInt8) : (rawArray bytes : Write ε Unit) = raw bytes.toList := by
  have hbytes : ∀ w : Writer, Writer.mk (w.buffer ++ ⟨bytes⟩) = w.append bytes.toList := fun w => by
    simp only [Writer.append, Writer.mk.injEq]
    apply ByteArray.ext
    simp only [ByteArray.data_append, List.data_toByteArray, Array.toArray_toList]
  funext w
  exact congrArg (EStateM.Result.ok ()) (hbytes w)

/-- A step whose failures are renamed succeeds where the step does. -/
lemma mapError_ok {write : Write ε Unit} {f : ε → ε'} {w w' : Writer}
    (h : mapError f write w = .ok () w') : write w = .ok () w' := by
  cases hwrite : write w with
  | error e w₁ =>
    simp only [mapError, hwrite] at h
    cases h
  | ok u w₁ =>
    simp only [mapError, hwrite] at h
    cases h
    rfl

/-! ## Steps that are read back -/

/-- A step that, where it succeeds, appends bytes from which another step reads a certain answer,
unless these are more bytes than an object may have. -/
def ReadsBack (write : Write ε Unit) (read : Read ε' α) (a : α) : Prop :=
  ∀ w w', write w = .ok () w' →
    ∃ bs, w' = w.append bs ∧ (bs.length ≤ largestFrame → Read.Parses read bs a)

namespace ReadsBack

/-- Where nothing is written, an answer is read back that takes no bytes. -/
lemma pure {read : Read ε' α} {a : α} (h : Read.Parses read [] a) :
    ReadsBack (Pure.pure () : Write ε Unit) read a := by
  intro w w' hrun
  cases hrun
  exact ⟨[], Writer.append_nil.symm, fun _ => h⟩

/-- Bytes are read back by a step that takes them. -/
lemma raw {read : Read ε' α} {bs : List UInt8} {a : α} (h : Read.Parses read bs a) :
    ReadsBack (raw bs : Write ε Unit) read a := by
  intro w w' hrun
  cases hrun
  exact ⟨bs, rfl, fun _ => h⟩

/-- A step that always fails is read back by anything. -/
lemma throw (e : ε) (read : Read ε' α) (a : α) :
    ReadsBack (MonadExcept.throw e : Write ε Unit) read a := by
  intro w w' hrun
  cases hrun

/-- What is written by two steps is read back by two steps. -/
lemma bind {write write' : Write ε Unit} {read : Read ε' α} {next : α → Read ε' β} {a : α} {b : β}
    (h : ReadsBack write read a) (hnext : ReadsBack write' (next a) b) :
    ReadsBack (write >>= fun _ => write') (read >>= next) b := by
  intro w w' hrun
  obtain ⟨_, w₁, hwrite, hrest⟩ := bind_ok hrun
  obtain ⟨bs, rfl, hparses⟩ := h w w₁ hwrite
  obtain ⟨bs', rfl, hparses'⟩ := hnext (w.append bs) w' hrest
  refine ⟨bs ++ bs', Writer.append_append bs bs', fun hlength => ?_⟩
  rw [List.length_append] at hlength
  exact (hparses (by omega)).bind (hparses' (by omega))

/-- Whatever is read from the same bytes is read back as well. -/
lemma mono {write : Write ε Unit} {read : Read ε' α} {read' : Read ε' β} {a : α} {b : β}
    (h : ReadsBack write read a)
    (hmono : ∀ bs, Read.Parses read bs a → Read.Parses read' bs b) :
    ReadsBack write read' b := by
  intro w w' hrun
  obtain ⟨bs, hbs, hparses⟩ := h w w' hrun
  exact ⟨bs, hbs, fun hlength => hmono bs (hparses hlength)⟩

/-- What is read last takes no bytes. -/
lemma after {write : Write ε Unit} {read : Read ε' α} {next : α → Read ε' β} {a : α} {b : β}
    (h : ReadsBack write read a) (hnext : Read.Parses (next a) [] b) :
    ReadsBack write (read >>= next) b :=
  h.mono fun _ hparses => hparses.after hnext

/-- What is read first takes no bytes. -/
lemma before {write : Write ε Unit} {step : Read ε' α} {next : α → Read ε' β} {a : α} {b : β}
    (hstep : Read.Parses step [] a) (h : ReadsBack write (next a) b) :
    ReadsBack write (step >>= next) b :=
  h.mono fun _ hparses => hstep.bind hparses

/-- An answer that is changed after it was read. -/
lemma map {write : Write ε Unit} {read : Read ε' α} {a : α} (f : α → β)
    (h : ReadsBack write read a) : ReadsBack write (read >>= fun a => Pure.pure (f a)) (f a) :=
  h.after (Read.Parses.pure (f a))

/-- Steps whose failures are renamed. -/
lemma mapError {ε₁ ε₁' : Type} {write : Write ε Unit} {read : Read ε' α} {a : α} (f : ε → ε₁)
    (g : ε' → ε₁') (h : ReadsBack write read a) :
    ReadsBack (mapError f write) (Read.mapError g read) a := by
  intro w w' hrun
  obtain ⟨bs, hbs, hparses⟩ := h w w' (mapError_ok hrun)
  exact ⟨bs, hbs, fun hlength => (hparses hlength).mapError g⟩

end ReadsBack

/-- Writing items one by one is writing the first one and then the others. -/
lemma each_cons (write : α → Write ε Unit) (a : α) (rest : List α) :
    each write (a :: rest) = write a >>= fun _ => each write rest := by
  funext w
  rw [bind_apply]
  cases hwrite : write a w with
  | ok u w' => simp only [each, hwrite]
  | error e w' => simp only [each, hwrite]

/-- Items that are read back one by one are read back together. -/
lemma ReadsBack.each {write : α → Write ε Unit} {read : Read ε' α} {items : List α}
    (h : ∀ a ∈ items, ReadsBack (write a) read a) :
    ReadsBack (each write items) (Read.times items.length read) items := by
  have hgo : ∀ done, ReadsBack (Write.each write items)
      (Read.times.go read items.length done) (done.reverse ++ items) := by
    induction items with
    | nil =>
      intro done
      rw [List.append_nil]
      exact pure (Read.Parses.pure done.reverse)
    | cons a rest ih =>
      intro done
      have hrest := ih (fun b hb => h b (List.mem_cons_of_mem a hb)) (a :: done)
      rw [List.reverse_cons, List.append_assoc, List.singleton_append] at hrest
      rw [each_cons, List.length_cons, Read.times_go_succ]
      exact bind (h a List.mem_cons_self) hrest
  exact hgo []

/-! ## Words and payloads -/

namespace ReadsBack

/-- A 32-bit word is read back. -/
lemma u32 (n : UInt32) : ReadsBack (u32 n : Write ε Unit) Read.u32 n := by
  have hword := Read.Parses.u32 n.toNat
  rw [UInt32.ofNat_toNat] at hword
  exact raw hword

/-- A signed 32-bit word is read back. -/
lemma i32 (n : Int32) : ReadsBack (i32 n : Write ε Unit) Read.i32 n := by
  have hword := (u32 (ε := ε) n.toUInt32).map UInt32.toInt32
  rw [Int32.toInt32_toUInt32] at hword
  exact hword

/-- A 64-bit word is read back. -/
lemma u64 (n : UInt64) : ReadsBack (u64 n : Write ε Unit) Read.u64 n := by
  have hword := Read.Parses.u64 n.toNat
  rw [UInt64.ofNat_toNat] at hword
  exact raw hword

/-- A signed 64-bit word is read back. -/
lemma i64 (n : Int64) : ReadsBack (i64 n : Write ε Unit) Read.i64 n := by
  have hword := (u64 (ε := ε) n.toUInt64).map UInt64.toInt64
  rw [Int64.toInt64_toUInt64] at hword
  exact hword

/-- A single-precision number is read back. -/
lemma float (x : Binary32) : ReadsBack (float x : Write ε Unit) Read.float x :=
  (u32 x.bits).map Binary32.mk

/-- A double-precision number is read back. -/
lemma double (x : Binary64) : ReadsBack (double x : Write ε Unit) Read.double x :=
  (u64 x.bits).map Binary64.mk

/-- A truth value is read back. -/
lemma bool (b : Bool) : ReadsBack (bool b : Write ε Unit) Read.bool b := by
  have hword := (i32 (ε := ε) (if b then 1 else 0)).map fun n => n != 0
  cases b <;> exact hword

/-- A handle is read back. -/
lemma binder (h : BinderHandle) : ReadsBack (h.write : Write ε Unit) BinderHandle.read h :=
  (u32 h.kind).bind <| (u32 h.flags).bind <| (u64 h.object).bind <|
    (u64 h.cookie).map (BinderHandle.mk h.kind h.flags h.object)

/-- A length is read back, if it could be written. -/
lemma length (count : Nat) : ReadsBack (length count) Read.length (some count) := by
  unfold Write.length
  split
  case isFalse => exact throw _ _ _
  case isTrue hcount =>
    exact (i32 (Int32.ofNat count)).mono fun bs hparses => hparses.length hcount

end ReadsBack

/-! ## Arrays and texts -/

/-- The bytes of an array behind its length, with the padding. -/
def arrayBody (bytes : Array UInt8) : List UInt8 :=
  bytes.toList ++ List.replicate (padTo4 bytes.size - bytes.size) 0

/-- The number of UTF-16 units of a text. -/
def unitCount (text : String) : Nat :=
  (Utf16.encode text.toList).length

/-- The bytes of a text behind its length: the units, the zero unit and the padding. -/
def textBody (text : String) : List UInt8 :=
  bytesOfUnits (Utf16.encode text.toList) ++ ([0, 0] ++
    List.replicate (padTo4 (2 * (unitCount text + 1)) - 2 * (unitCount text + 1)) 0)

/-- An array of bytes is written as its length and its body. -/
lemma byteArray_eq (bytes : Array UInt8) :
    byteArray bytes = length bytes.size >>= fun _ => raw (arrayBody bytes) := by
  unfold byteArray
  rw [rawArray_eq, padding, raw_raw]
  rfl

/-- A text is written as its length and its body. -/
lemma string16_eq (text : String) :
    string16 text = length (unitCount text) >>= fun _ => raw (textBody text) := by
  unfold string16
  extract_lets units
  rw [padding, raw_raw, raw_raw]
  rfl

/-- Every unit is two bytes. -/
lemma length_bytesOfUnits (units : List UInt16) :
    (bytesOfUnits units).length = 2 * units.length := by
  induction units with
  | nil => rfl
  | cons u rest ih =>
    have hcons : bytesOfUnits (u :: rest) = LittleEndian.digits 2 u.toNat ++ bytesOfUnits rest :=
      rfl
    rw [hcons, List.length_append, LittleEndian.length_digits, ih, List.length_cons]
    omega

/-- The body of an array is padded to whole words. -/
lemma length_arrayBody (bytes : Array UInt8) : (arrayBody bytes).length = padTo4 bytes.size := by
  rw [arrayBody, List.length_append, List.length_replicate, Array.length_toList,
    Nat.add_sub_cancel' (le_padTo4 _)]

/-- The body of a text has a terminator and is padded to whole words. -/
lemma length_textBody (text : String) :
    (textBody text).length = padTo4 (2 * (unitCount text + 1)) := by
  have hpad := le_padTo4 (2 * (unitCount text + 1))
  rw [textBody, List.length_append, List.length_append, List.length_replicate,
    length_bytesOfUnits, List.length_cons, List.length_singleton, ← unitCount]
  omega

/-- Units are read from their bytes. -/
lemma unitsOfBytes_bytesOfUnits (units : List UInt16) :
    Read.unitsOfBytes (bytesOfUnits units) = units := by
  have hgo : ∀ done, Read.unitsOfBytes.go (bytesOfUnits units) done = done.reverse ++ units := by
    induction units with
    | nil => exact fun done => (List.append_nil _).symm
    | cons u rest ih =>
      intro done
      have hlt : u.toNat < LittleEndian.modulus 2 := u.toNat_lt
      have hunit : UInt16.ofNat (LittleEndian.value (LittleEndian.digits 2 u.toNat)) = u := by
        rw [LittleEndian.value_digits, Nat.mod_eq_of_lt hlt, UInt16.ofNat_toNat]
      have hstep : Read.unitsOfBytes.go (bytesOfUnits (u :: rest)) done =
          Read.unitsOfBytes.go (bytesOfUnits rest)
            (UInt16.ofNat (LittleEndian.value (LittleEndian.digits 2 u.toNat)) :: done) := rfl
      rw [hstep, hunit, ih, List.reverse_cons, List.append_assoc, List.singleton_append]
  exact hgo []

end Write

namespace Read.Parses

/-- An array is read from its bytes and the padding. -/
lemma arrayBody (bytes : Array UInt8) :
    Parses (Read.takePadded bytes.size (padTo4 bytes.size)) (Write.arrayBody bytes) bytes := by
  have hparses := takePadded bytes.toList (List.replicate (padTo4 bytes.size - bytes.size) 0)
  rw [List.length_replicate, Array.length_toList, Nat.add_sub_cancel' (le_padTo4 _),
    Array.toArray_toList] at hparses
  exact hparses

/-- A text is read from its units, the zero unit and the padding. -/
lemma textBody (text : String) :
    Parses
      (do
        let bytes ← Read.takePadded (2 * Write.unitCount text)
          (padTo4 (2 * (Write.unitCount text + 1)))
        match Utf16.decode? (Read.unitsOfBytes bytes.toList) with
        | some text => return some (String.ofList text)
        | none => throw .invalidUtf16)
      (Write.textBody text) (some text) := by
  have hparses := takePadded (Write.bytesOfUnits (Utf16.encode text.toList)) ([0, 0] ++
    List.replicate (padTo4 (2 * (Write.unitCount text + 1)) - 2 * (Write.unitCount text + 1)) 0)
  have hlength := Write.length_textBody text
  rw [Write.textBody, List.length_append] at hlength
  rw [hlength, Write.length_bytesOfUnits, ← Write.unitCount] at hparses
  refine hparses.after ?_
  rw [List.toList_toArray, Write.unitsOfBytes_bytesOfUnits, Utf16.decode?_encode]
  dsimp only
  rw [String.ofList_toList]
  exact pure _

end Read.Parses

namespace Write.ReadsBack

/-- An array of bytes is read back. -/
lemma byteArray (bytes : Array UInt8) :
    ReadsBack (byteArray bytes) Read.byteArray (some bytes) := by
  rw [byteArray_eq]
  exact (length bytes.size).bind (raw ((Read.Parses.arrayBody bytes).map some))

/-- A text is read back. -/
lemma string16 (text : String) : ReadsBack (string16 text) Read.string16 (some text) := by
  rw [string16_eq]
  exact (length (unitCount text)).bind (raw (Read.Parses.textBody text))

end Write.ReadsBack

end TaggedParcel
