import TaggedParcel.Proofs.Buffer.Roundtrip

set_option relaxedAutoImplicit false
set_option autoImplicit false

/-!
# What writing appends

A step that writes does not look at what was written before it: it appends the same bytes
wherever it starts, or it fails in the same way. What it appends is known step by step, so that
the bytes of a payload are put together as the steps are.

## Main definitions

* `Write.Emits` — what a step appends, wherever it starts.
* `Write.Steady` — steps that append the same whole words wherever they start.

## Main results

* `Write.Emits.bind` — what steps append together.
* `Write.Steady.bind`, `Write.Steady.each` — steady steps compose.
* `Write.Steady.byteArray`, `Write.Steady.string16` — payloads with a length are whole words.
-/

namespace TaggedParcel

namespace Writer

/-- Writers that were extended by the same bytes were extended by the same list of bytes. -/
lemma append_inj {w : Writer} {bs bs' : List UInt8} (h : w.append bs = w.append bs') :
    bs = bs' := by
  have hbytes := congrArg (fun w => w.bytes.toList) h
  simp only [append_eq_toArray] at hbytes
  exact List.append_cancel_left hbytes

/-- Cutting off what was appended leaves what was there before. -/
lemma truncate_append (w : Writer) (bs : List UInt8) : (w.append bs).truncate w.position = w := by
  obtain ⟨buffer⟩ := w
  simp only [truncate, append, position, mk.injEq]
  apply ByteArray.ext
  simp [← ByteArray.size_data]

end Writer

namespace Write

variable {ε ε' α : Type}

/-- What a step appends, wherever it starts: these bytes, or some bytes before it fails. -/
def Emits (write : Write ε Unit) : Except ε (List UInt8) → Prop
  | .ok bs => ∀ w, write w = .ok () (w.append bs)
  | .error e => ∀ w, ∃ bs, write w = .error e (w.append bs)

namespace Emits

/-- Doing nothing emits nothing. -/
lemma pure : Emits (Pure.pure () : Write ε Unit) (.ok []) :=
  fun w => by
    rw [Writer.append_nil]
    rfl

/-- Failing at once emits the failure. -/
lemma throw (e : ε) : Emits (MonadExcept.throw e : Write ε Unit) (.error e) :=
  fun w => ⟨[], by
    rw [Writer.append_nil]
    rfl⟩

/-- Bytes emit themselves. -/
lemma raw (bs : List UInt8) : Emits (raw bs : Write ε Unit) (.ok bs) :=
  fun _ => rfl

/-- Steps one after another append what they append one after another. -/
lemma bind {write write' : Write ε Unit} {bs : List UInt8} {result : Except ε (List UInt8)}
    (h : Emits write (.ok bs)) (h' : Emits write' result) :
    Emits (write >>= fun _ => write') (result.map fun bs' => bs ++ bs') := by
  cases result with
  | ok bs' =>
    intro w
    rw [bind_apply, h w]
    dsimp only
    rw [h' (w.append bs), Writer.append_append]
  | error e =>
    intro w
    obtain ⟨bs', hrun⟩ := h' (w.append bs)
    refine ⟨bs ++ bs', ?_⟩
    rw [bind_apply, h w]
    dsimp only
    rw [hrun, Writer.append_append]

/-- What comes behind a failing step does not matter. -/
lemma bind_error {β : Type} {write : Write ε Unit} {e : ε} (h : Emits write (.error e))
    (next : Unit → Write ε β) (w : Writer) :
    ∃ bs, (write >>= next) w = .error e (w.append bs) := by
  obtain ⟨bs, hrun⟩ := h w
  refine ⟨bs, ?_⟩
  rw [bind_apply, hrun]

/-- Renaming the failures of a step does not change what it appends. -/
lemma mapError (f : ε → ε') {write : Write ε Unit} {result : Except ε (List UInt8)}
    (h : Emits write result) : Emits (mapError f write) (result.mapError f) := by
  cases result with
  | ok bs =>
    intro w
    simp only [Write.mapError, h w]
  | error e =>
    intro w
    obtain ⟨bs, hrun⟩ := h w
    refine ⟨bs, ?_⟩
    simp only [Write.mapError, hrun]

/-- Each failure and each list of bytes is told from the others. -/
lemma unique {write : Write ε Unit} {result result' : Except ε (List UInt8)}
    (h : Emits write result) (h' : Emits write result') : result = result' := by
  cases result with
  | ok bs =>
    have hrun := h .empty
    cases result' with
    | ok bs' =>
      rw [h' .empty] at hrun
      injection hrun with _ hrun
      rw [Writer.append_inj hrun]
    | error e' =>
      obtain ⟨bs', hrun'⟩ := h' .empty
      rw [hrun'] at hrun
      cases hrun
  | error e =>
    obtain ⟨bs, hrun⟩ := h .empty
    cases result' with
    | ok bs' =>
      rw [h' .empty] at hrun
      cases hrun
    | error e' =>
      obtain ⟨bs', hrun'⟩ := h' .empty
      rw [hrun'] at hrun
      injection hrun with hrun _
      rw [hrun]

end Emits

/-- What a step appends, of at most as many bytes as an object may have, is read from these bytes
if it is read back. -/
lemma ReadsBack.parses {write : Write ε Unit} {read : Read ε' α} {a : α} {bs : List UInt8}
    (h : ReadsBack write read a) (hwrite : Emits write (.ok bs))
    (hlength : bs.length ≤ largestFrame) : Read.Parses read bs a := by
  obtain ⟨bs', hbs', hparses⟩ := h .empty _ (hwrite .empty)
  obtain rfl := Writer.append_inj hbs'
  exact hparses hlength

/-! ## Steady steps -/

/-- Steps that append the same bytes wherever they start, or fail in the same way. The bytes are
whole words, and at least so many. -/
def Steady (least : Nat) (write : Write ε Unit) : Prop :=
  ∃ result, Emits write result ∧ ∀ bs, result = .ok bs → 4 ∣ bs.length ∧ least ≤ bs.length

namespace Steady

variable {least : Nat}

/-- What emits whole words, and enough of them, is steady. -/
lemma of_emits {write : Write ε Unit} {bs : List UInt8} (h : Emits write (.ok bs))
    (hwords : 4 ∣ bs.length) (hleast : least ≤ bs.length) : Steady least write :=
  ⟨.ok bs, h, fun _ hbs => by
    cases hbs
    exact ⟨hwords, hleast⟩⟩

/-- Doing nothing is steady. -/
lemma pure : Steady 0 (Pure.pure () : Write ε Unit) :=
  of_emits Emits.pure (Nat.dvd_zero 4) (Nat.zero_le _)

/-- A failing step appends nothing that could be too short. -/
lemma throw (e : ε) : Steady least (MonadExcept.throw e : Write ε Unit) :=
  ⟨.error e, Emits.throw e, fun _ h => nomatch h⟩

/-- Whole words are steady, if there are enough of them. -/
lemma raw {bs : List UInt8} (hwords : 4 ∣ bs.length) (hleast : least ≤ bs.length) :
    Steady least (raw bs : Write ε Unit) :=
  of_emits (Emits.raw bs) hwords hleast

/-- Any number of bytes is no number that is too small. -/
lemma weaken {write : Write ε Unit} (h : Steady least write) : Steady 0 write := by
  obtain ⟨result, hemits, hform⟩ := h
  exact ⟨result, hemits, fun bs hbs => ⟨(hform bs hbs).1, Nat.zero_le _⟩⟩

/-- Steady steps are steady one after another. -/
lemma bind {write write' : Write ε Unit} (h : Steady least write) (h' : Steady 0 write') :
    Steady least (write >>= fun _ => write') := by
  obtain ⟨result, hemits, hform⟩ := h
  cases result with
  | error e => exact ⟨.error e, hemits.bind_error _, fun _ h => nomatch h⟩
  | ok bs =>
    obtain ⟨result', hemits', hform'⟩ := h'
    refine ⟨_, hemits.bind hemits', fun both hboth => ?_⟩
    cases result' with
    | error e => cases hboth
    | ok bs' =>
      cases hboth
      obtain ⟨hwords, hleast⟩ := hform bs rfl
      rw [List.length_append]
      exact ⟨Nat.dvd_add hwords (hform' bs' rfl).1, Nat.le_add_right_of_le hleast⟩

/-- Renaming failures keeps a step steady. -/
lemma mapError (f : ε → ε') {write : Write ε Unit} (h : Steady least write) :
    Steady least (mapError f write) := by
  obtain ⟨result, hemits, hform⟩ := h
  refine ⟨_, hemits.mapError f, fun bs hbs => ?_⟩
  cases result with
  | error e => cases hbs
  | ok bs' =>
    cases hbs
    exact hform bs rfl

/-- The items of a list may be none at all. -/
lemma each {write : α → Write ε Unit} {items : List α}
    (h : ∀ a ∈ items, Steady least (write a)) : Steady 0 (each write items) := by
  induction items with
  | nil => exact pure
  | cons a rest ih =>
    rw [each_cons]
    exact bind (h a List.mem_cons_self).weaken (ih fun b hb => h b (List.mem_cons_of_mem a hb))

/-! ## Words and payloads -/

/-- A 32-bit word is steady. -/
lemma u32 (n : UInt32) : Steady 4 (u32 n : Write ε Unit) :=
  raw (by simp) (by simp)

/-- A signed 32-bit word is steady. -/
lemma i32 (n : Int32) : Steady 4 (i32 n : Write ε Unit) :=
  u32 n.toUInt32

/-- A 64-bit word is steady. -/
lemma u64 (n : UInt64) : Steady 4 (u64 n : Write ε Unit) :=
  raw (by simp) (by simp)

/-- A signed 64-bit word is steady. -/
lemma i64 (n : Int64) : Steady 4 (i64 n : Write ε Unit) :=
  u64 n.toUInt64

/-- A single-precision number is steady. -/
lemma float (x : Binary32) : Steady 4 (float x : Write ε Unit) :=
  u32 x.bits

/-- A double-precision number is steady. -/
lemma double (x : Binary64) : Steady 4 (double x : Write ε Unit) :=
  u64 x.bits

/-- A truth value is steady. -/
lemma bool (b : Bool) : Steady 4 (bool b : Write ε Unit) :=
  i32 _

/-- A handle is steady. -/
lemma binder (h : BinderHandle) : Steady 4 (h.write : Write ε Unit) :=
  (u32 h.kind).bind ((u32 h.flags).bind ((u64 h.object).bind (u64 h.cookie).weaken).weaken).weaken

/-- A length is steady, also if it does not fit its word. -/
lemma length (count : Nat) : Steady 4 (length count) := by
  unfold Write.length
  split
  · exact i32 _
  · exact throw _

/-- An array of bytes is steady. -/
lemma byteArray (bytes : Array UInt8) : Steady 4 (byteArray bytes) := by
  have hwords : 4 ∣ (arrayBody bytes).length := by
    rw [length_arrayBody]
    exact Nat.dvd_mul_left 4 _
  rw [byteArray_eq]
  exact (length _).bind (raw hwords (Nat.zero_le _))

/-- A text is steady. -/
lemma string16 (text : String) : Steady 4 (string16 text) := by
  have hwords : 4 ∣ (textBody text).length := by
    rw [length_textBody]
    exact Nat.dvd_mul_left 4 _
  rw [string16_eq]
  exact (length _).bind (raw hwords (Nat.zero_le _))

end Steady

end Write

end TaggedParcel
