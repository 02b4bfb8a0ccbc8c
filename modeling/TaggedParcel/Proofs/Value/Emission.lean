import TaggedParcel.Proofs.Buffer.Emission
import TaggedParcel.Proofs.Value.Roundtrip

set_option relaxedAutoImplicit false
set_option autoImplicit false

/-!
# What values append

The payload of every field that holds no objects is steady: it consists of whole words, which do
not depend on what was written before. A bundle is no exception, although its size is only known
once its entries are written.

## Main definitions

* `Write.bundleBytes`, `Write.bundleFrame` — the bytes of a bundle with given entries.

## Main results

* `Write.Emits.bundleWith` — what a bundle appends.
* `Write.Steady.value`, `Write.Steady.bundle` — generic values and bundles.
* `Write.Steady.valueKind` — single values.
* `Write.Steady.list`, `Write.Steady.map` — lists and maps.
-/

namespace TaggedParcel

namespace Write

/-- The bytes of a bundle whose counted entries are `body`. -/
def bundleBytes (body : List UInt8) : List UInt8 :=
  LittleEndian.digits 4 body.length ++ (LittleEndian.digits 4 bundleMagic.toNat ++ body)

/-- The bytes of a bundle, unless there are too many for its size word. -/
def bundleFrame (body : List UInt8) : Except FieldError (List UInt8) :=
  if body.length < UInt32.size then
    .ok (bundleBytes body)
  else
    .error (.buffer (.lengthOverflow body.length))

/-- What the entries append stands behind their size and the magic. -/
lemma Emits.bundleWith {write : Value → Write FieldError Unit} {entries : Bundle}
    {result : Except FieldError (List UInt8)} (h : Emits (bundleEntries write entries) result) :
    Emits (bundleWith write entries) (result.bind bundleFrame) := by
  cases result with
  | error e =>
    intro w
    obtain ⟨bs, hrun⟩ := h.bind_error (fun _ => position >>= fun stop =>
      (liftM (patchSize ⟨w.position⟩ (stop - (w.position + 8))) : Write FieldError Unit))
      ((w.append (LittleEndian.digits 4 0)).append (LittleEndian.digits 4 bundleMagic.toNat))
    rw [bundleWith_apply, hrun, Writer.append_append, Writer.append_append]
    exact ⟨_, rfl⟩
  | ok body =>
    have hrun : ∀ w, Write.bundleWith write entries w =
        Write.mapError FieldError.buffer (patchSize ⟨w.position⟩ body.length)
          (w.append (LittleEndian.digits 4 0 ++
            (LittleEndian.digits 4 bundleMagic.toNat ++ body))) := by
      intro w
      have hsize : (((w.append (LittleEndian.digits 4 0)).append
          (LittleEndian.digits 4 bundleMagic.toNat)).append body).position - (w.position + 8) =
            body.length := by
        rw [Writer.position_append, Writer.position_append, Writer.position_append,
          LittleEndian.length_digits, LittleEndian.length_digits]
        omega
      rw [bundleWith_apply, bind_apply, h]
      dsimp only
      rw [bind_apply]
      dsimp only [position]
      rw [hsize, Writer.append_append, Writer.append_append]
      rfl
    by_cases hlt : body.length < UInt32.size
    · simp only [Except.bind, bundleFrame, if_pos hlt]
      intro w
      rw [hrun, Write.mapError, patchSize_apply, if_pos hlt]
      rfl
    · simp only [Except.bind, bundleFrame, if_neg hlt]
      intro w
      rw [hrun, Write.mapError, patchSize_apply, if_neg hlt]
      exact ⟨_, rfl⟩

namespace Steady

/-- Steps of the buffer layer inside a payload. -/
lemma lift {least : Nat} {write : Write BufferError Unit} (h : Steady least write) :
    Steady least (liftM write : Write FieldError Unit) :=
  mapError FieldError.buffer h

/-! ## Counted payloads -/

/-- A counted array is steady if its items are. -/
lemma arrayOf {α : Type} {write : α → Write FieldError Unit} {items : List α} {least : Nat}
    (h : ∀ a ∈ items, Steady least (write a)) :
    Steady 4 ((liftM (Write.length items.length) : Write FieldError Unit) >>= fun _ =>
      Write.each write items) :=
  bind (lift (length items.length)) (each h)

/-- An array of texts is steady. -/
lemma stringArray (items : List String) : Steady 4 (stringArray items) :=
  arrayOf fun text _ => lift (string16 text)

/-- An array of 32-bit words is steady. -/
lemma intArray (items : List Int32) : Steady 4 (intArray items) :=
  arrayOf fun n _ => i32 n

/-- An array of 64-bit words is steady. -/
lemma longArray (items : List Int64) : Steady 4 (longArray items) :=
  arrayOf fun n _ => i64 n

/-! ## Generic values -/

/-- The entries of a bundle are steady if the values in it are. -/
lemma bundleEntries {write : Value → Write FieldError Unit} {entries : Bundle} {least : Nat}
    (h : ∀ entry ∈ entries, Steady least (write entry.2)) :
    Steady 4 (Write.bundleEntries write entries) :=
  arrayOf fun entry hentry => bind (lift (string16 entry.1)) (h entry hentry).weaken

/-- A bundle is steady if the values in it are. -/
lemma bundleWith {write : Value → Write FieldError Unit} {entries : Bundle} {least : Nat}
    (h : ∀ entry ∈ entries, Steady least (write entry.2)) :
    Steady 4 (Write.bundleWith write entries) := by
  obtain ⟨result, hemits, hform⟩ := bundleEntries h
  refine ⟨_, hemits.bundleWith, fun bs hbs => ?_⟩
  cases result with
  | error e => cases hbs
  | ok body =>
    simp only [Except.bind, bundleFrame] at hbs
    split at hbs
    · cases hbs
      have hwords := (hform body rfl).1
      rw [bundleBytes, List.length_append, List.length_append, LittleEndian.length_digits,
        LittleEndian.length_digits]
      omega
    · cases hbs

/-- What is done with the step for the values one level deeper is steady, if it is for every
steady step. -/
lemma deeper {least : Nat} (maxDepth : Nat) {inner : Option (Value → Write FieldError Unit)}
    (hinner : ∀ write ∈ inner, ∀ v, Steady 4 (write v))
    {next : (Value → Write FieldError Unit) → Write FieldError Unit}
    (hnext : ∀ write, (∀ v, Steady 4 (write v)) → Steady least (next write)) :
    Steady least (Write.deeper maxDepth inner >>= next) := by
  cases inner with
  | none => exact throw (FieldError.limit ⟨.depth, maxDepth, maxDepth + 1⟩)
  | some write => exact hnext write (hinner write rfl)

/-- A value is steady, if the values in it are. -/
lemma writeWith (maxDepth : Nat) {inner : Option (Value → Write FieldError Unit)}
    (hinner : ∀ write ∈ inner, ∀ v, Steady 4 (write v)) (v : Value) :
    Steady 4 (Value.writeWith maxDepth inner v) := by
  unfold Value.writeWith
  refine bind (i32 v.tag.code) ?_
  cases v with
  | null => exact pure
  | string text => exact (lift (string16 text)).weaken
  | int n => exact (i32 n).weaken
  | map entries =>
    exact deeper maxDepth hinner fun write hvalue =>
      (arrayOf fun entry _ => bind (hvalue entry.1) (hvalue entry.2).weaken).weaken
  | bundle entries =>
    exact deeper maxDepth hinner fun write hvalue =>
      (bundleWith fun entry _ => hvalue entry.2).weaken
  | short n => exact (i32 n.toInt32).weaken
  | long n => exact (i64 n).weaken
  | float x => exact (float x).weaken
  | double x => exact (double x).weaken
  | bool b => exact (bool b).weaken
  | list items =>
    exact deeper maxDepth hinner fun write hvalue => (arrayOf fun item _ => hvalue item).weaken
  | byteArray bytes => exact (lift (byteArray bytes)).weaken
  | stringArray items => exact (stringArray items).weaken
  | binder handle => exact (binder handle).weaken
  | intArray items => exact (intArray items).weaken
  | longArray items => exact (longArray items).weaken
  | byte n => exact (i32 n.toInt32).weaken

/-- A value is steady, however many levels of nesting are left. -/
theorem writeWithin (maxDepth levels : Nat) (v : Value) :
    Steady 4 (v.writeWithin maxDepth levels) := by
  induction levels generalizing v with
  | zero => exact writeWith maxDepth (by simp) v
  | succ levels ih =>
    refine writeWith maxDepth (fun write hwrite => ?_) v
    cases hwrite
    exact ih

/-- A value is steady at any level of nesting. -/
theorem value (level maxDepth : Nat) (v : Value) : Steady 4 (v.write level maxDepth) :=
  writeWithin maxDepth (maxDepth - level) v

/-- A bundle is steady at any level of nesting. -/
theorem bundle (level maxDepth : Nat) (entries : Bundle) :
    Steady 4 (Bundle.write entries level maxDepth) :=
  bundleWith fun entry _ => value level maxDepth entry.2

/-! ## Payloads of fields -/

/-- A single value is steady. -/
lemma fieldValue (maxDepth : Nat) (v : FieldValue) : Steady 4 (v.write maxDepth) := by
  cases v with
  | bool b => exact bool b
  | byte n => exact i32 n.toInt32
  | short n => exact i32 n.toInt32
  | int n => exact i32 n
  | long n => exact i64 n
  | float x => exact float x
  | double x => exact double x
  | string text => exact lift (string16 text)
  | byteArray bytes => exact lift (byteArray bytes)
  | byteArrayArray items => exact arrayOf fun bytes _ => lift (byteArray bytes)
  | intArray items => exact intArray items
  | floatArray items => exact arrayOf fun x _ => float x
  | stringArray items => exact stringArray items
  | bundle entries => exact bundle 0 maxDepth entries
  | binder handle => exact binder handle

/-- A single value is steady in a field of any kind, whatever becomes of the value on its way
into the payload. -/
theorem valueKind (type : String) (maxDepth : Nat) (kind : ValueKind) (v : FieldValue) :
    Steady 4 (kind.write type maxDepth v) := by
  cases kind with
  | plain kind => exact fieldValue maxDepth v
  | uncarried shape => exact throw _
  | refined kind =>
    refine bind (fieldValue maxDepth (kind.toPayload type v)) ?_
    cases kind.objection? v with
    | some e => exact throw e
    | none => exact pure

/-- An element without its tag. -/
lemma compact (layout : Semantic) (v : Value) : Steady 4 (compact layout v) := by
  unfold Write.compact
  split
  · exact i32 _
  · exact bool _
  · exact i64 _
  · exact float _
  · exact double _
  · exact lift (string16 _)
  · exact throw _

/-- The payload of a list is steady. -/
theorem list (kind : ElementKind) (layout : Semantic) (maxDepth : Nat) (items : List Value) :
    Steady 4 (list kind layout maxDepth items) := by
  have hitem : ∀ item ∈ items, Steady 4
      (if layout = .list then (kind.toValue item).write 0 maxDepth
        else Write.compact layout (kind.toValue item)) := by
    intro item _
    split
    · exact value 0 maxDepth _
    · exact compact layout _
  exact arrayOf hitem

/-- The payload of a map is steady. -/
theorem map (keyKind valueKind : ElementKind) (maxDepth : Nat) (entries : List (Value × Value)) :
    Steady 4 (map keyKind valueKind maxDepth entries) :=
  arrayOf fun entry _ =>
    bind (value 0 maxDepth (keyKind.toValue entry.1))
      (value 0 maxDepth (valueKind.toValue entry.2)).weaken

end Steady

end Write

end TaggedParcel
