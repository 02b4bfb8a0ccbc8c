import TaggedParcel.Proofs.Value.Encoding

set_option relaxedAutoImplicit false
set_option autoImplicit false

/-!
# How deep values may nest

Values nest in lists, maps and bundles. Writing and reading count the levels in different places,
but both find the same: a value is written, and read back from its bytes, exactly if its depth
does not exceed the levels that are left. Otherwise the bound on the depth is what they fail for.

## Main results

* `Value.writeWithin_guarded` — a value is written if it does not nest too deep.
* `Value.readWithin_guarded` — a value is read from its bytes if it does not nest too deep.
* `Value.write_read_depth` — the two together, in terms of levels and limits.
-/

namespace TaggedParcel

/-- The failure of a value that nests deeper than a bound. -/
def FieldError.tooDeep (maxDepth : Nat) : FieldError :=
  .limit ⟨.depth, maxDepth, maxDepth + 1⟩

namespace Value

/-- The writer for the values in a value, if there is a level left for them. -/
def writerBelow (maxDepth : Nat) : (levels : Nat) → Option (Value → Write FieldError Unit)
  | 0 => none
  | levels + 1 => some (writeWithin maxDepth levels)

/-- The reader for the values in a value, if there is a level left for them. -/
def readerBelow (limits : Limits) : (levels : Nat) → Option (Read FieldError Value)
  | 0 => none
  | levels + 1 => some (readWithin limits levels)

/-- Writing a value is writing its parts with one level of nesting less. -/
lemma writeWithin_eq (maxDepth levels : Nat) :
    writeWithin maxDepth levels = writeWith maxDepth (writerBelow maxDepth levels) := by
  cases levels <;> rfl

/-- Reading a value is reading its parts with one level of nesting less. -/
lemma readWithin_eq (limits : Limits) (levels : Nat) :
    readWithin limits levels = readWith limits (readerBelow limits levels) := by
  cases levels <;> rfl

end Value

/-! ## Writing -/

namespace Write.Guarded

variable {maxDepth levels : Nat} {p : Prop}

/-- What is one level deeper needs one level more. -/
lemma deeper {depth : Nat} {next : (Value → Write FieldError Unit) → Write FieldError Unit}
    {bs : List UInt8} (h : ∀ left,
      Guarded (.tooDeep maxDepth) (depth ≤ left) (next (Value.writeWithin maxDepth left)) bs) :
    Guarded (.tooDeep maxDepth) (depth + 1 ≤ levels)
      (Write.deeper maxDepth (Value.writerBelow maxDepth levels) >>= next) bs := by
  cases levels with
  | zero =>
    refine ⟨fun hroom => absurd hroom (Nat.not_succ_le_zero depth), fun _ w => ⟨[], ?_⟩⟩
    rw [Writer.append_nil]
    rfl
  | succ left => exact (h left).congr Nat.succ_le_succ_iff.symm

/-- A counted collection, whose count has no condition. -/
lemma arrayOf {α : Type} {e : FieldError} {write : α → Write FieldError Unit} {fits : α → Prop}
    {encode : α → List UInt8} {items : List α} (hlength : items.length ≤ maxLength)
    (h : ∀ a ∈ items, Guarded e (fits a) (write a) (encode a)) :
    Guarded e (∀ a ∈ items, fits a)
      ((liftM (Write.length items.length) : Write FieldError Unit) >>= fun _ =>
        Write.each write items)
      (LittleEndian.digits 4 items.length ++ items.flatMap encode) :=
  behind (Emits.length hlength).lift (each h)

/-- An array whose items are no values has no condition at all. -/
lemma plainArray {α : Type} {e : FieldError} {write : α → Write FieldError Unit}
    {encode : α → List UInt8} {items : List α} (hlength : items.length ≤ maxLength)
    (h : ∀ a ∈ items, Emits (write a) (.ok (encode a))) (hp : p) :
    Guarded e p
      ((liftM (Write.length items.length) : Write FieldError Unit) >>= fun _ =>
        Write.each write items)
      (LittleEndian.digits 4 items.length ++ items.flatMap encode) :=
  (arrayOf hlength fun a ha => of_emits (h a ha) trivial).congr
    (iff_of_true (fun _ _ => trivial) hp)

/-- The entries of a bundle have the conditions of the values in them. -/
lemma bundleEntries {e : FieldError} {write : Value → Write FieldError Unit}
    {fits : String × Value → Prop} {entries : Bundle} (hlength : entries.length ≤ maxLength)
    (hkeys : ∀ entry ∈ entries, Value.TextFits entry.1)
    (h : ∀ entry ∈ entries, Guarded e (fits entry) (write entry.2) entry.2.encoding) :
    Guarded e (∀ entry ∈ entries, fits entry) (Write.bundleEntries write entries)
      (Value.bundleBody entries) := by
  rw [Value.bundleBody, Value.entryEncodings_eq]
  exact arrayOf hlength fun entry hentry =>
    behind (Emits.string16 (hkeys entry hentry)).lift (h entry hentry)

/-- A bundle has the conditions of the values in it. -/
lemma bundleWith {e : FieldError} {write : Value → Write FieldError Unit}
    {fits : String × Value → Prop} {entries : Bundle} (hfit : (Value.bundle entries).LengthsFit)
    (h : ∀ entry ∈ entries, Guarded e (fits entry) (write entry.2) entry.2.encoding) :
    Guarded e (∀ entry ∈ entries, fits entry) (Write.bundleWith write entries)
      (bundleBytes (Value.bundleBody entries)) := by
  obtain ⟨hlength, hkeys, hbody⟩ := hfit
  have hentries := bundleEntries hlength hkeys h
  refine ⟨fun hfits => ?_, fun hnot => (hentries.fails hnot).bundleWith⟩
  have hemits := (hentries.emits hfits).bundleWith
  simp only [Except.bind, bundleFrame] at hemits
  rw [if_pos (Nat.lt_of_le_of_lt hbody (by decide))] at hemits
  exact hemits

end Write.Guarded

namespace Value

/-- A value is written exactly if as many levels are left as it nests deep.

**Proof sketch.** Induction on the value. A collection takes one level, and what is left has to do
for each of the values in it. -/
theorem writeWithin_guarded (maxDepth : Nat) {v : Value} (h : v.Sized) (levels : Nat) :
    Write.Guarded (.tooDeep maxDepth) (v.depth ≤ levels) (v.writeWithin maxDepth levels)
      v.encoding := by
  induction h generalizing levels with
  | @mk v hfit hchildren ih =>
    rw [writeWithin_eq]
    unfold writeWith encoding
    refine Write.Guarded.behind (Write.Emits.raw _) ?_
    cases v with
    | null => exact .of_emits Write.Emits.pure (Nat.zero_le _)
    | string text => exact .of_emits (Write.Emits.string16 hfit).lift (Nat.zero_le _)
    | int n => exact .of_emits (Write.Emits.raw _) (Nat.zero_le _)
    | map entries =>
      have hentries : ∀ left, ∀ entry ∈ entries, Write.Guarded (.tooDeep maxDepth)
          (entry.1.depth ≤ left ∧ entry.2.depth ≤ left)
          (entry.1.writeWithin maxDepth left >>= fun _ => entry.2.writeWithin maxDepth left)
          (entry.1.encoding ++ entry.2.encoding) := by
        intro left entry hentry
        have hmem : ∀ child ∈ [entry.1, entry.2], child ∈ (Value.map entries).children :=
          fun child hchild => List.mem_flatMap.mpr ⟨entry, hentry, hchild⟩
        exact (ih _ (hmem _ (by simp)) left).bind (ih _ (hmem _ (by simp)) left)
      rw [payload, pairEncodings_eq, depth]
      exact .deeper fun left => (Write.Guarded.arrayOf hfit (hentries left)).congr
        depthOfPairs_le.symm
    | bundle entries =>
      rw [payload, depth]
      exact .deeper fun left => (Write.Guarded.bundleWith hfit fun entry hentry =>
        ih _ (List.mem_map.mpr ⟨entry, hentry, rfl⟩) left).congr depthOfEntries_le.symm
    | short n => exact .of_emits (Write.Emits.raw _) (Nat.zero_le _)
    | long n => exact .of_emits (Write.Emits.raw _) (Nat.zero_le _)
    | float x => exact .of_emits (Write.Emits.raw _) (Nat.zero_le _)
    | double x => exact .of_emits (Write.Emits.raw _) (Nat.zero_le _)
    | bool b => exact .of_emits (Write.Emits.raw _) (Nat.zero_le _)
    | list items =>
      rw [payload, encodings_eq, depth]
      exact .deeper fun left => (Write.Guarded.arrayOf hfit fun item hitem =>
        ih item hitem left).congr depthOfItems_le.symm
    | byteArray bytes => exact .of_emits (Write.Emits.byteArray hfit).lift (Nat.zero_le _)
    | stringArray items =>
      exact .plainArray hfit.1 (fun text htext => (Write.Emits.string16 (hfit.2 text htext)).lift)
        (Nat.zero_le _)
    | binder handle => exact .of_emits (Write.Emits.binder handle) (Nat.zero_le _)
    | intArray items => exact .plainArray hfit (fun n _ => Write.Emits.raw _) (Nat.zero_le _)
    | longArray items => exact .plainArray hfit (fun n _ => Write.Emits.raw _) (Nat.zero_le _)
    | byte n => exact .of_emits (Write.Emits.raw _) (Nat.zero_le _)

end Value

/-! ## Reading -/

namespace Read.Guarded

variable {limits : Limits} {levels : Nat} {p : Prop} {α : Type}

/-- What is one level deeper needs one level more. -/
lemma deeper {depth : Nat} {next : Read FieldError Value → Read FieldError α} {bs : List UInt8}
    {a : α} (h : ∀ left, Guarded (.tooDeep limits.maxDepth) (depth ≤ left)
      (next (Value.readWithin limits left)) bs a) :
    Guarded (.tooDeep limits.maxDepth) (depth + 1 ≤ levels)
      (Read.deeper limits (Value.readerBelow limits levels) >>= next) bs a := by
  cases levels with
  | zero => exact ⟨fun hroom => absurd hroom (Nat.not_succ_le_zero depth), fun _ r _ _ => ⟨r, rfl⟩⟩
  | succ left => exact (h left).congr Nat.succ_le_succ_iff.symm

/-- An array whose items are no values has no condition at all. -/
lemma plainArray {e : FieldError} {read : Read FieldError α} {encode : α → List UInt8}
    {items : List α} (hword : items.length ≤ Write.maxLength)
    (hlimit : items.length ≤ limits.maxElements) (h : ∀ a ∈ items, Parses read (encode a) a)
    (hp : p) :
    Guarded e p (Read.arrayOf limits read)
      (LittleEndian.digits 4 items.length ++ items.flatMap encode) (some items) := by
  have hitems : Guarded e (∀ a ∈ items, True) (Read.times items.length read)
      (items.flatMap encode) items := times fun a ha => of_parses (h a ha) trivial
  exact (behind (Parses.count hword hlimit) (hitems.map some)).congr
    (iff_of_true (fun _ _ => trivial) hp)

/-- A bundle has the conditions of the values in it. -/
lemma bundleWith {e : FieldError} {read : Read FieldError Value} {fits : String × Value → Prop}
    {entries : Bundle} (hfit : (Value.bundle entries).LengthsFit)
    (hlimit : entries.length ≤ limits.maxElements) (hsorted : Sorted.Ascending compare entries)
    (h : ∀ entry ∈ entries, Guarded e (fits entry) read entry.2.encoding entry.2) :
    Guarded e (∀ entry ∈ entries, fits entry) (Read.bundleWith limits read)
      (Write.bundleBytes (Value.bundleBody entries)) (some entries) := by
  obtain ⟨hword, hkeys, hbody⟩ := hfit
  have hentries : Guarded e (∀ entry ∈ entries, fits entry)
      (Read.bundleEntries limits read) (Value.bundleBody entries) entries := by
    rw [Value.bundleBody, Value.entryEncodings_eq]
    exact behind (Parses.countOrZero hword hlimit) <| times fun entry hentry =>
      behind (Parses.required (Parses.string16 (hkeys entry hentry)))
        ((h entry hentry).map (Prod.mk entry.1))
  have hmagic := Parses.u32 bundleMagic.toNat
  rw [UInt32.ofNat_toNat] at hmagic
  rw [Read.bundleWith_eq]
  refine behind (((Parses.i32 _).length hbody).mapError FieldError.buffer) ?_
  refine behind (hmagic.mapError FieldError.buffer) ?_
  rw [if_neg (fun h => h rfl)]
  have hframed := (hentries.framed FieldError.buffer).map fun entries =>
    some (Bundle.ofList entries)
  rw [Bundle.ofList, Sorted.ofList_ascending compare hsorted] at hframed
  exact hframed

/-- An array or a bundle as a generic value. -/
lemma orNull {e : FieldError} {read : Read FieldError (Option α)} {bs : List UInt8} {a : α}
    (f : α → Value) (h : Guarded e p read bs (some a)) :
    Guarded e p (read >>= fun a => Pure.pure (a.elim .null f)) bs (f a) :=
  h.map fun a => a.elim .null f

end Read.Guarded

namespace Value

variable {limits : Limits}

/-- The tag of a value says how its payload is read. -/
lemma behindTag {e : FieldError} {p : Prop} {tag : ValueTag}
    {next : ValueTag → Read FieldError Value} {bs : List UInt8} {v : Value}
    (h : Read.Guarded e p (next tag) bs v) :
    Read.Guarded e p (do next (← ValueTag.parse (← Read.i32))) (int32Bytes tag.code ++ bs) v :=
  .behind ((Read.Parses.int32 tag.code).mapError FieldError.buffer)
    (.before (Read.Parses.parseTag tag) h)

/-- A value of few bytes in which nothing is counted is read from its bytes. -/
lemma readWith_single {v : Value} (h : v.Sized) (hcount : v.count? = none) (hdepth : v.depth = 0)
    (hsmall : v.encoding.length ≤ largestFrame) (levels : Nat) :
    Read.Guarded (.tooDeep limits.maxDepth) (v.depth ≤ levels)
      (readWith limits (readerBelow limits levels)) v.encoding v := by
  have hroom : v.depth ≤ levels := hdepth ▸ Nat.zero_le levels
  have hwrite := (writeWithin_guarded limits.maxDepth h levels).emits hroom
  have hback : Write.ReadsBack (v.writeWithin limits.maxDepth levels)
      (readWithin limits levels) v :=
    Write.ReadsBack.writeWithin limits.maxDepth levels (.single hcount)
  rw [← readWithin_eq]
  exact .of_parses (hback.parses hwrite hsmall) hroom

/-- A value is read from its bytes exactly if as many levels are left as it nests deep.

**Proof sketch.** Induction on the value, as for writing. That no count is above the limit and that
the keys of bundles ascend is needed at every level. -/
theorem readWithin_guarded {v : Value} (h : v.Sized) (hfits : v.Fits limits) (levels : Nat) :
    Read.Guarded (.tooDeep limits.maxDepth) (v.depth ≤ levels) (readWithin limits levels)
      v.encoding v := by
  induction h generalizing levels with
  | @mk v hfit hchildren ih =>
    rw [readWithin_eq]
    cases v with
    | null | int n | short n | byte n | bool b | float x | double x | long n | binder handle =>
      refine readWith_single (.mk hfit hchildren) rfl rfl ?_ levels
      simp [encoding, payload, BinderHandle.bytes, int32Bytes, int64Bytes, largestFrame]
    | string text =>
      have hread := (Read.Parses.required (Read.Parses.string16 hfit)).map Value.string
      exact behindTag (.of_parses hread (Nat.zero_le _))
    | byteArray bytes =>
      have hread := (Read.Parses.byteArray hfit).mapError FieldError.buffer
      exact behindTag (.orNull Value.byteArray (.of_parses hread (Nat.zero_le _)))
    | stringArray items =>
      cases hfits with
      | single h => cases h
      | stringArray hlimit =>
        exact behindTag (.orNull Value.stringArray (.plainArray hfit.1 hlimit
          (fun text htext => Read.Parses.required (Read.Parses.string16 (hfit.2 text htext)))
          (Nat.zero_le _)))
    | intArray items =>
      cases hfits with
      | single h => cases h
      | intArray hlimit =>
        exact behindTag (.orNull Value.intArray (.plainArray hfit hlimit
          (fun n _ => (Read.Parses.int32 n).mapError FieldError.buffer) (Nat.zero_le _)))
    | longArray items =>
      cases hfits with
      | single h => cases h
      | longArray hlimit =>
        exact behindTag (.orNull Value.longArray (.plainArray hfit hlimit
          (fun n _ => (Read.Parses.int64 n).mapError FieldError.buffer) (Nat.zero_le _)))
    | list items =>
      cases hfits with
      | single h => cases h
      | list hlimit hitems =>
        have hread : ∀ left, ∀ item ∈ items, Read.Guarded (.tooDeep limits.maxDepth)
            (item.depth ≤ left) (readWithin limits left) item.encoding item :=
          fun left item hitem => ih item hitem (hitems item hitem) left
        refine behindTag ?_
        rw [payload, encodings_eq, depth]
        exact .deeper fun left => .congr (.behind (Read.Parses.countOrZero hfit hlimit)
          ((Read.Guarded.times (hread left)).map Value.list)) depthOfItems_le.symm
    | map entries =>
      cases hfits with
      | single h => cases h
      | map hlimit hkeys hvalues =>
        have hread : ∀ left, ∀ entry ∈ entries, Read.Guarded (.tooDeep limits.maxDepth)
            (entry.1.depth ≤ left ∧ entry.2.depth ≤ left)
            (do return (← readWithin limits left, ← readWithin limits left))
            (entry.1.encoding ++ entry.2.encoding) entry := by
          intro left entry hentry
          have hmem : ∀ child ∈ [entry.1, entry.2], child ∈ (Value.map entries).children :=
            fun child hchild => List.mem_flatMap.mpr ⟨entry, hentry, hchild⟩
          exact (ih _ (hmem _ (by simp)) (hkeys entry hentry) left).bind
            ((ih _ (hmem _ (by simp)) (hvalues entry hentry) left).map (Prod.mk entry.1))
        refine behindTag ?_
        rw [payload, pairEncodings_eq, depth]
        exact .deeper fun left => .congr (.behind (Read.Parses.countOrZero hfit hlimit)
          ((Read.Guarded.times (hread left)).map Value.map)) depthOfPairs_le.symm
    | bundle entries =>
      cases hfits with
      | single h => cases h
      | bundle hlimit hsorted hvalues =>
        have hread : ∀ left, ∀ entry ∈ entries, Read.Guarded (.tooDeep limits.maxDepth)
            (entry.2.depth ≤ left) (readWithin limits left) entry.2.encoding entry.2 :=
          fun left entry hentry => ih _ (List.mem_map.mpr ⟨entry, hentry, rfl⟩)
            (hvalues entry hentry) left
        refine behindTag ?_
        rw [payload, depth]
        exact .deeper fun left => (Read.Guarded.orNull Value.bundle
          (.bundleWith hfit hlimit hsorted (hread left))).congr depthOfEntries_le.symm

/-- The depth law. At a level of nesting below the bound, a value is written exactly if the level
and the depth of the value together do not exceed the bound, and its bytes do not depend on the
level and the bound. From these bytes, whatever follows them, the value is read by the same rule.
In both directions it is the bound on the depth that a value fails for which nests too deep. -/
theorem write_read_depth {v : Value} (h : v.Sized) (level : Nat) :
    (∀ maxDepth, level ≤ maxDepth → ∀ w : Writer,
      (level + v.depth ≤ maxDepth → v.write level maxDepth w = .ok () (w.append v.encoding)) ∧
      (maxDepth < level + v.depth → ∃ w',
        v.write level maxDepth w = .error (.limit ⟨.depth, maxDepth, maxDepth + 1⟩) w')) ∧
    ∀ limits : Limits, level ≤ limits.maxDepth → v.Fits limits → ∀ r : Reader, r.Sound →
      v.encoding <+: r.ahead →
      (level + v.depth ≤ limits.maxDepth →
        Value.read limits level r = .ok v (r.advance v.encoding.length)) ∧
      (limits.maxDepth < level + v.depth → ∃ r', Value.read limits level r =
        .error (.limit ⟨.depth, limits.maxDepth, limits.maxDepth + 1⟩) r') := by
  constructor
  · intro maxDepth hlevel w
    have hwrite := writeWithin_guarded maxDepth h (maxDepth - level)
    refine ⟨fun hroom => hwrite.emits (by omega) w, fun hdeep => ?_⟩
    obtain ⟨bs, hrun⟩ := hwrite.fails (by omega) w
    exact ⟨_, hrun⟩
  · intro limits hlevel hfits r hr hfront
    have hread := readWithin_guarded h hfits (limits.maxDepth - level)
    refine ⟨fun hroom => hread.parses (by omega) r hr hfront, fun hdeep => ?_⟩
    exact hread.fails (by omega) r hr hfront

end Value

namespace Sample

/-- A bundle in a map in a list. -/
def nestedValue : Value :=
  .list [.map [(.int 1, .bundle [("a", .null)])]]

/-- The lengths in the nested value fit their words. -/
lemma nestedValue_sized : nestedValue.Sized := by
  have hleaf : ∀ v : Value, v.LengthsFit → v.children = [] → v.Sized := fun v hfit hnone =>
    .mk hfit fun child hchild => by
      rw [hnone] at hchild
      cases hchild
  have hlength : 1 ≤ Write.maxLength := by decide
  have hbundle : (Value.bundle [("a", .null)]).Sized := by
    refine .mk ⟨hlength, fun entry hentry => ?_, by decide⟩ fun child hchild => ?_
    · cases List.mem_singleton.mp hentry
      exact hlength
    · cases List.mem_singleton.mp hchild
      exact hleaf _ trivial rfl
  have hmap : (Value.map [(.int 1, .bundle [("a", .null)])]).Sized := by
    refine .mk hlength fun child hchild => ?_
    rcases List.mem_cons.mp hchild with rfl | hchild
    · exact hleaf _ trivial rfl
    · cases List.mem_singleton.mp hchild
      exact hbundle
  refine .mk hlength fun child hchild => ?_
  cases List.mem_singleton.mp hchild
  exact hmap

/-- The nested value fits limits that allow an element. -/
lemma nestedValue_fits {limits : Limits} (h : 1 ≤ limits.maxElements) :
    nestedValue.Fits limits := by
  have hbundle : (Value.bundle [("a", .null)]).Fits limits := by
    refine .bundle h (List.pairwise_singleton _ _) fun entry hentry => ?_
    cases List.mem_singleton.mp hentry
    exact .single rfl
  refine .list h fun item hitem => ?_
  cases List.mem_singleton.mp hitem
  refine .map h (fun entry hentry => ?_) fun entry hentry => ?_
  · cases List.mem_singleton.mp hentry
    exact .single rfl
  · cases List.mem_singleton.mp hentry
    exact hbundle

end Sample

/-- At the second level, three levels of values need a bound of four. -/
theorem Value.write_read_depth_nested :
    Sample.nestedValue.Sized ∧ Sample.nestedValue.depth = 3 ∧
    Sample.nestedValue.write 1 4 .empty =
      .ok () (Writer.empty.append Sample.nestedValue.encoding) ∧
    (∃ w', Sample.nestedValue.write 1 3 .empty = .error (.limit ⟨.depth, 3, 4⟩) w') ∧
    (∀ limits : Limits, 1 ≤ limits.maxElements → Sample.nestedValue.Fits limits) ∧
    (Reader.ofBytes Sample.nestedValue.encoding.toArray).Sound ∧
    Value.read ⟨4, 1, 0⟩ 1 (.ofBytes Sample.nestedValue.encoding.toArray) =
      .ok Sample.nestedValue
        ((Reader.ofBytes Sample.nestedValue.encoding.toArray).advance
          Sample.nestedValue.encoding.length) ∧
    ∃ r', Value.read ⟨3, 1, 0⟩ 1 (.ofBytes Sample.nestedValue.encoding.toArray) =
      .error (.limit ⟨.depth, 3, 4⟩) r' := by
  obtain ⟨hwrite, hread⟩ := Value.write_read_depth Sample.nestedValue_sized 1
  have hsound : (Reader.ofBytes Sample.nestedValue.encoding.toArray).Sound :=
    Reader.sound_ofBytes (by decide)
  have hfront : Sample.nestedValue.encoding <+:
      (Reader.ofBytes Sample.nestedValue.encoding.toArray).ahead := by
    simp [Reader.ahead_ofBytes]
  have hfits : ∀ limits : Limits, 1 ≤ limits.maxElements → Sample.nestedValue.Fits limits :=
    fun limits h => Sample.nestedValue_fits h
  refine ⟨Sample.nestedValue_sized, rfl, (hwrite 4 (by decide) _).1 (by decide),
    (hwrite 3 (by decide) _).2 (by decide), hfits, hsound, ?_, ?_⟩
  · exact (hread ⟨4, 1, 0⟩ (by decide) (hfits _ (by decide)) _ hsound hfront).1 (by decide)
  · exact (hread ⟨3, 1, 0⟩ (by decide) (hfits _ (by decide)) _ hsound hfront).2 (by decide)

end TaggedParcel
