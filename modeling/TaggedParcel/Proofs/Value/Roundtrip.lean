import TaggedParcel.Proofs.Buffer.Roundtrip
import TaggedParcel.Proofs.Value.Locality

set_option relaxedAutoImplicit false
set_option autoImplicit false

/-!
# Reading back values

Generic values and bundles are read back at any depth of nesting, provided that no collection
in them counts more than the limit and that the keys of bundles ascend.

## Main definitions

* `Sorted.Ascending` — a list of pairs in ascending order of its keys.
* `Value.Fits` — values whose collections a reader accepts.

## Main results

* `Sorted.ofList_ascending` — a list in ascending order is its own map.
* `Write.ReadsBack.value`, `Write.ReadsBack.bundle` — generic values and bundles.
-/

namespace TaggedParcel

namespace Sorted

variable {κ α : Type} (compare : κ → κ → Ordering)

/-- Each key comes behind all keys before it. -/
def Ascending (entries : List (κ × α)) : Prop :=
  entries.Pairwise fun a b => compare b.1 a.1 = .gt

/-- A key that comes behind all others goes to the end. -/
lemma insert_greatest {key : κ} {entries : List (κ × α)}
    (h : ∀ entry ∈ entries, compare key entry.1 = .gt) (value : α) :
    insert compare key value entries = entries ++ [(key, value)] := by
  induction entries with
  | nil => rfl
  | cons entry rest ih =>
    rw [insert, h entry List.mem_cons_self]
    dsimp only
    rw [ih fun other hother => h other (List.mem_cons_of_mem entry hother), List.cons_append]

/-- A list in ascending order is its own map. -/
theorem ofList_ascending {entries : List (κ × α)} (h : Ascending compare entries) :
    ofList compare entries = entries := by
  have hfold : ∀ rest done : List (κ × α), Ascending compare (done ++ rest) →
      rest.foldl (fun entries pair => insert compare pair.1 pair.2 entries) done =
        done ++ rest := by
    intro rest
    induction rest with
    | nil => exact fun done _ => (List.append_nil done).symm
    | cons entry rest ih =>
      intro done hdone
      have hlast : ∀ other ∈ done, compare entry.1 other.1 = .gt := fun other hother =>
        (List.pairwise_append.mp hdone).2.2 other hother entry List.mem_cons_self
      have hsplit : done ++ entry :: rest = done ++ [entry] ++ rest := by simp
      rw [List.foldl_cons, insert_greatest compare hlast, hsplit]
      exact ih _ (hsplit ▸ hdone)
  exact hfold entries [] h

end Sorted

/-- How many entries a value counts, if its payload starts with a count of entries that is
limited. -/
def Value.count? : Value → Option Nat
  | .map entries => some entries.length
  | .bundle entries => some entries.length
  | .list items => some items.length
  | .stringArray items => some items.length
  | .intArray items => some items.length
  | .longArray items => some items.length
  | _ => none

/-- Values whose collections count no more than the limit, at any depth, and whose bundles are
in ascending order. -/
inductive Value.Fits (limits : Limits) : Value → Prop where
  | single {v : Value} (h : v.count? = none) : Fits limits v
  | stringArray {items : List String} (h : items.length ≤ limits.maxElements) :
    Fits limits (.stringArray items)
  | intArray {items : List Int32} (h : items.length ≤ limits.maxElements) :
    Fits limits (.intArray items)
  | longArray {items : List Int64} (h : items.length ≤ limits.maxElements) :
    Fits limits (.longArray items)
  | list {items : List Value} (h : items.length ≤ limits.maxElements)
    (hitems : ∀ item ∈ items, Fits limits item) : Fits limits (.list items)
  | map {entries : List (Value × Value)} (h : entries.length ≤ limits.maxElements)
    (hkeys : ∀ entry ∈ entries, Fits limits entry.1)
    (hvalues : ∀ entry ∈ entries, Fits limits entry.2) : Fits limits (.map entries)
  | bundle {entries : Bundle} (h : entries.length ≤ limits.maxElements)
    (hsorted : Sorted.Ascending compare entries)
    (hvalues : ∀ entry ∈ entries, Fits limits entry.2) : Fits limits (.bundle entries)

namespace Read.Parses

/-- A count within the limit is let pass. -/
lemma checkElements {limits : Limits} {count : Nat} (h : count ≤ limits.maxElements) :
    Parses (liftM (limits.checkElements count) : Read FieldError Unit) [] () := by
  unfold Limits.checkElements
  rw [if_neg (by omega)]
  exact pure ()

/-- The word of a tag is recognized. -/
lemma parseTag (tag : ValueTag) :
    Parses (liftM (ValueTag.parse tag.code) : Read FieldError ValueTag) [] tag := by
  unfold ValueTag.parse
  rw [ValueTag.ofCode?_code]
  exact pure tag

end Read.Parses

namespace Write

namespace ReadsBack

variable {α : Type}

/-- Steps of the buffer layer inside a payload. -/
lemma lift {write : Write BufferError Unit} {read : Read BufferError α} {a : α}
    (h : ReadsBack write read a) :
    ReadsBack (liftM write : Write FieldError Unit) (liftM read : Read FieldError α) a :=
  mapError FieldError.buffer FieldError.buffer h

/-- A step that is written inside a payload and read in the buffer layer. -/
lemma liftRead {write : Write FieldError Unit} {read : Read BufferError α} {a : α}
    (h : ReadsBack write read a) : ReadsBack write (liftM read : Read FieldError α) a := by
  intro w w' hrun
  obtain ⟨bs, hbs, hparses⟩ := h w w' hrun
  exact ⟨bs, hbs, fun hlength => (hparses hlength).mapError FieldError.buffer⟩

/-- An array or a bundle as a generic value. -/
lemma orNull {write : Write FieldError Unit} {read : Read FieldError (Option α)} {a : α}
    (f : α → Value) (h : ReadsBack write read (some a)) :
    ReadsBack write (read >>= fun a => Pure.pure (a.elim .null f)) (f a) :=
  h.map fun a => a.elim .null f

/-! ## Counted payloads -/

/-- A payload that is not null is read back where it must not be. -/
lemma required {write : Write BufferError Unit} {payload : Read BufferError (Option α)} {a : α}
    (h : ReadsBack write payload (some a)) :
    ReadsBack (liftM write : Write FieldError Unit) (Read.required payload) a :=
  (lift h).after (Read.Parses.pure a)

variable {limits : Limits}

/-- A count within the limit on elements is read back. -/
lemma count {n : Nat} (h : n ≤ limits.maxElements) :
    ReadsBack (liftM (Write.length n) : Write FieldError Unit) (Read.count limits) (some n) :=
  (lift (length n)).after ((Read.Parses.checkElements h).after (Read.Parses.pure _))

/-- A count within the limit on elements is read back where it may be null. -/
lemma countOrZero {n : Nat} (h : n ≤ limits.maxElements) :
    ReadsBack (liftM (Write.length n) : Write FieldError Unit) (Read.countOrZero limits) n :=
  (lift (length n)).after ((Read.Parses.checkElements h).after (Read.Parses.pure _))

/-- A counted array is read back if its items are, and there are not too many. -/
lemma arrayOf {write : α → Write FieldError Unit} {read : Read FieldError α} {items : List α}
    (h : items.length ≤ limits.maxElements) (hitems : ∀ a ∈ items, ReadsBack (write a) read a) :
    ReadsBack ((liftM (Write.length items.length) : Write FieldError Unit) >>= fun _ =>
      Write.each write items) (Read.arrayOf limits read) (some items) :=
  (count h).bind ((each hitems).map some)

/-- An array of texts is read back if there are not too many. -/
lemma stringArray {items : List String} (h : items.length ≤ limits.maxElements) :
    ReadsBack (Write.stringArray items) (Read.stringArray limits) (some items) :=
  arrayOf h fun text _ => required (string16 text)

/-- An array of 32-bit words is read back if there are not too many. -/
lemma intArray {items : List Int32} (h : items.length ≤ limits.maxElements) :
    ReadsBack (Write.intArray items) (Read.intArray limits) (some items) :=
  arrayOf h fun n _ => liftRead (i32 n)

/-- An array of 64-bit words is read back if there are not too many. -/
lemma longArray {items : List Int64} (h : items.length ≤ limits.maxElements) :
    ReadsBack (Write.longArray items) (Read.longArray limits) (some items) :=
  arrayOf h fun n _ => liftRead (i64 n)

end ReadsBack

/-! ## Generic values -/

/-- The entries of a bundle behind its magic, with `item` for the value of each. -/
def bundleEntries (item : Value → Write FieldError Unit) (entries : Bundle) :
    Write FieldError Unit := do
  length entries.length
  each (fun entry => do string16 entry.1; item entry.2) entries

/-- A bundle is a reserved word, a magic, and entries whose size the word is given. -/
lemma bundleWith_apply (write : Value → Write FieldError Unit) (entries : Bundle) (w : Writer) :
    bundleWith write entries w =
      (bundleEntries write entries >>= fun _ => position >>= fun stop =>
        (liftM (patchSize ⟨w.position⟩ (stop - (w.position + 8))) : Write FieldError Unit))
        ((w.append (LittleEndian.digits 4 0)).append
          (LittleEndian.digits 4 bundleMagic.toNat)) := by
  have hstart : w.position + 8 = ((w.append (LittleEndian.digits 4 0)).append
      (LittleEndian.digits 4 bundleMagic.toNat)).position := by
    rw [Writer.position_append, Writer.position_append, LittleEndian.length_digits,
      LittleEndian.length_digits]
  rw [hstart, bundleEntries, bind_assoc]
  rfl

namespace ReadsBack

variable {α : Type} {limits : Limits}

/-- What a bundle writes: the entries, behind a word with their size and the magic. -/
lemma bundleWith_ok {write : Value → Write FieldError Unit} {entries : Bundle} {w w' : Writer}
    (h : Write.bundleWith write entries w = .ok () w') :
    ∃ w₁, Write.bundleEntries write entries
        ((w.append (LittleEndian.digits 4 0)).append (LittleEndian.digits 4 bundleMagic.toNat)) =
          .ok () w₁ ∧
      Write.patchSize ⟨w.position⟩ (w₁.position - (w.position + 8)) w₁ = .ok () w' := by
  rw [Write.bundleWith_apply] at h
  obtain ⟨_, w₁, hbody, hpatch⟩ := bind_ok h
  obtain ⟨stop, w₂, hstop, hpatch⟩ := bind_ok hpatch
  cases hstop
  exact ⟨w₁, hbody, mapError_ok hpatch⟩

/-- A bundle is read back if the values in it are. -/
lemma bundleWith {write : Value → Write FieldError Unit} {read : Read FieldError Value}
    {entries : Bundle} (h : entries.length ≤ limits.maxElements)
    (hsorted : Sorted.Ascending compare entries)
    (hvalues : ∀ entry ∈ entries, ReadsBack (write entry.2) read entry.2) :
    ReadsBack (Write.bundleWith write entries) (Read.bundleWith limits read) (some entries) := by
  have hentries : ReadsBack (Write.bundleEntries write entries) (Read.bundleEntries limits read)
      entries :=
    (countOrZero h).bind <| each fun entry hentry =>
      (required (string16 entry.1)).bind ((hvalues entry hentry).map (Prod.mk entry.1))
  intro w w' hrun
  obtain ⟨w₁, hbody, hpatch⟩ := bundleWith_ok hrun
  obtain ⟨bs, rfl, hparses⟩ := hentries _ _ hbody
  have hsize : (((w.append (LittleEndian.digits 4 0)).append
      (LittleEndian.digits 4 bundleMagic.toNat)).append bs).position - (w.position + 8) =
        bs.length := by
    rw [Writer.position_append, Writer.position_append, Writer.position_append,
      LittleEndian.length_digits, LittleEndian.length_digits]
    omega
  rw [hsize, Writer.append_append, Writer.append_append] at hpatch
  obtain ⟨-, rfl⟩ := patchSize_ok hpatch
  refine ⟨_, rfl, fun hlength => ?_⟩
  rw [List.length_append, List.length_append] at hlength
  have hword := (Read.Parses.i32 bs.length).length (by
    unfold largestFrame at hlength
    unfold maxLength
    omega)
  have hmagic := Read.Parses.u32 bundleMagic.toNat
  rw [UInt32.ofNat_toNat] at hmagic
  rw [Read.bundleWith_eq]
  refine (hword.mapError FieldError.buffer).bind ((hmagic.mapError FieldError.buffer).bind ?_)
  rw [if_neg (fun h => h rfl)]
  have hframed := ((hparses (by omega)).framed FieldError.buffer).map fun entries =>
    some (Bundle.ofList entries)
  rw [Bundle.ofList, Sorted.ofList_ascending compare hsorted] at hframed
  exact hframed

/-- What is done with the step for the values one level deeper is read back, if it is for every
step that is read back itself. -/
lemma deeper (maxDepth : Nat) {writes : Option (Value → Write FieldError Unit)}
    {reads : Option (Read FieldError Value)}
    (hinner : ∀ write ∈ writes, ∃ read ∈ reads, ∀ v, v.Fits limits → ReadsBack (write v) read v)
    {next : (Value → Write FieldError Unit) → Write FieldError Unit}
    {next' : Read FieldError Value → Read FieldError α} {a : α}
    (hnext : ∀ write read, (∀ v, v.Fits limits → ReadsBack (write v) read v) →
      ReadsBack (next write) (next' read) a) :
    ReadsBack (Write.deeper maxDepth writes >>= next) (Read.deeper limits reads >>= next') a := by
  cases writes with
  | none => exact throw (FieldError.limit ⟨.depth, maxDepth, maxDepth + 1⟩) _ a
  | some write =>
    obtain ⟨read, hread, hvalue⟩ := hinner write rfl
    cases hread
    exact hnext write read hvalue

/-- A value is read back, if the values in it are. -/
lemma writeWith (maxDepth : Nat) {writes : Option (Value → Write FieldError Unit)}
    {reads : Option (Read FieldError Value)}
    (hinner : ∀ write ∈ writes, ∃ read ∈ reads, ∀ v, v.Fits limits → ReadsBack (write v) read v)
    {v : Value} (h : v.Fits limits) :
    ReadsBack (Value.writeWith maxDepth writes v) (Value.readWith limits reads) v := by
  unfold Value.writeWith Value.readWith
  refine bind (liftRead (i32 v.tag.code)) (before (Read.Parses.parseTag v.tag) ?_)
  cases v with
  | null => exact pure (Read.Parses.pure _)
  | string text => exact (required (string16 text)).map Value.string
  | int n => exact (liftRead (i32 n)).map Value.int
  | map entries =>
    cases h with
    | single h => cases h
    | map h hkeys hvalues =>
      refine deeper maxDepth hinner fun write read hvalue => ?_
      refine bind (countOrZero h) (map Value.map (each fun entry hentry => ?_))
      exact bind (hvalue _ (hkeys entry hentry))
        (map (Prod.mk entry.1) (hvalue _ (hvalues entry hentry)))
  | bundle entries =>
    cases h with
    | single h => cases h
    | bundle h hsorted hvalues =>
      refine deeper maxDepth hinner fun write read hvalue => ?_
      exact orNull Value.bundle
        (bundleWith h hsorted fun entry hentry => hvalue _ (hvalues entry hentry))
  | short n =>
    have hword := (liftRead (i32 n.toInt32)).map fun n => Value.short n.toInt16
    rw [Int16.toInt16_toInt32] at hword
    exact hword
  | long n => exact (liftRead (i64 n)).map Value.long
  | float x => exact (liftRead (float x)).map Value.float
  | double x => exact (liftRead (double x)).map Value.double
  | bool b => exact (liftRead (bool b)).map Value.bool
  | list items =>
    cases h with
    | single h => cases h
    | list h hitems =>
      refine deeper maxDepth hinner fun write read hvalue => ?_
      exact bind (countOrZero h)
        (map Value.list (each fun item hitem => hvalue _ (hitems item hitem)))
  | byteArray bytes => exact orNull Value.byteArray (lift (byteArray bytes))
  | stringArray items =>
    cases h with
    | single h => cases h
    | stringArray h => exact orNull Value.stringArray (stringArray h)
  | binder handle => exact (liftRead (binder handle)).map Value.binder
  | intArray items =>
    cases h with
    | single h => cases h
    | intArray h => exact orNull Value.intArray (intArray h)
  | longArray items =>
    cases h with
    | single h => cases h
    | longArray h => exact orNull Value.longArray (longArray h)
  | byte n =>
    have hword := (liftRead (i32 n.toInt32)).map fun n => Value.byte n.toInt8
    rw [Int8.toInt8_toInt32] at hword
    exact hword

/-- A value is read back with as many levels of nesting left. -/
theorem writeWithin (maxDepth levels : Nat) {v : Value} (h : v.Fits limits) :
    ReadsBack (Value.writeWithin maxDepth levels v) (Value.readWithin limits levels) v := by
  induction levels generalizing v with
  | zero => exact writeWith maxDepth (by simp) h
  | succ levels ih =>
    refine writeWith maxDepth (fun write hwrite => ?_) h
    cases hwrite
    exact ⟨_, rfl, fun v hv => ih hv⟩

/-- A value that fits is read back at any level of nesting. -/
theorem value (level : Nat) {v : Value} (h : v.Fits limits) :
    ReadsBack (v.write level limits.maxDepth) (Value.read limits level) v :=
  writeWithin limits.maxDepth (limits.maxDepth - level) h

/-- A bundle that fits is read back at any level of nesting. -/
theorem bundle (level : Nat) {entries : Bundle} (h : (Value.bundle entries).Fits limits) :
    ReadsBack (Bundle.write entries level limits.maxDepth) (Bundle.read limits level)
      (some entries) := by
  cases h with
  | single h => cases h
  | bundle h hsorted hvalues =>
    exact bundleWith h hsorted fun entry hentry => value level (hvalues entry hentry)

end ReadsBack

end Write

end TaggedParcel
