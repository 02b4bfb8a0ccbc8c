import TaggedParcel.Proofs.Schema.Payload
import TaggedParcel.Proofs.Value.DepthLaw
import TaggedParcel.Proofs.Value.Emission

set_option relaxedAutoImplicit false
set_option autoImplicit false

/-!
# How writing a payload fails

A declared shape and the options of its field give a layout, and there is a writer for every value
of that shape in that layout. So the payload of a field fails for two reasons only: a length does
not fit its word, or a generic value nests deeper than the bound. A shape that no field can carry
never gets as far, since it has no layout.

## Main definitions

* `Write.FailsFor` — steps that fail for certain causes only.
* `FieldError.Legitimate` — the two reasons.
* `ValueKind.BuiltIn` — the kinds of single values that come with the format.

## Main results

* `Write.FailsFor.bind`, `Write.FailsFor.each` — such steps compose.
* `Write.FailsFor.writeWithin` — generic values.
* `Write.FailsFor.valueKind` — single values of kinds that have a layout.
* `Write.FailsFor.compact` — an element without a tag, where the layout is that of its list.
* `Write.FailsFor.list`, `Write.FailsFor.map` — lists and maps.
-/

namespace TaggedParcel

/-- The one way in which writing to a buffer fails: a length does not fit its word. -/
inductive BufferError.Overflow : BufferError → Prop where
  /-- This length does not fit. -/
  | mk (length : Nat) : Overflow (.lengthOverflow length)

/-- The reasons for which writing a payload fails, where `deep` says whether a value in it nests
too deep. -/
inductive FieldError.Legitimate (maxDepth : Nat) (deep : Prop) : FieldError → Prop where
  /-- A value nests deeper than the bound. -/
  | tooDeep (h : deep) : Legitimate maxDepth deep (.tooDeep maxDepth)
  /-- A length does not fit its word. -/
  | tooLong (length : Nat) : Legitimate maxDepth deep (.buffer (.lengthOverflow length))

/-- A failure stays legitimate where values nest deep for more reasons. -/
lemma FieldError.Legitimate.mono {maxDepth : Nat} {deep deep' : Prop} {e : FieldError}
    (h : e.Legitimate maxDepth deep) (hdeep : deep → deep') : e.Legitimate maxDepth deep' := by
  cases h with
  | tooDeep h => exact .tooDeep (hdeep h)
  | tooLong length => exact .tooLong length

namespace Value

/-- Among these values one nests deeper than a bound. -/
def AnyDeeper (bound : Nat) (vs : List Value) : Prop :=
  ∃ v ∈ vs, bound < v.depth

/-- A value nests deeper than the values in it. -/
lemma depth_lt_of_child {v child : Value} (h : child ∈ v.children) : child.depth < v.depth := by
  have hpos : 0 < v.depth := by
    cases v with
    | list items | map entries | bundle entries => exact Nat.succ_pos _
    | _ => cases h
  have hle : v.depth ≤ v.depth - 1 + 1 := by omega
  have hchild := depth_le_succ.mp hle child h
  omega

end Value

/-- What is taken for an element of a kind with a tag has that tag. -/
lemma ElementKind.tag_of_expect {expected : String} {tag : ValueTag} {v item : Value}
    (h : expect expected (v.tag = tag) v = .ok item) : v.tag = tag := by
  unfold expect at h
  split at h
  case isTrue htag => exact of_decide_eq_true htag
  case isFalse =>
    split at h
    · cases h
    · cases h

/-- A list of elements that are no objects is written with tags, or in the layout without tags that
there is for its elements. -/
lemma Shape.resolve_list {element : Shape} (hobject : ∀ type, element ≠ .object type)
    {options : FieldOptions} {layout : Semantic} (h : (list element).resolve options = .ok layout) :
    layout = .list ∨ element.compactSemantic? = some layout := by
  simp only [resolve] at h
  split at h
  case h_1 hcompact _ =>
    cases h
    exact .inr hcompact
  case h_2 =>
    unfold listSemantic at h
    split at h
    · exact absurd rfl (hobject _)
    · cases h
      split
      · exact .inl rfl
      · exact .inr rfl
    · split at h
      · cases h
        exact .inl rfl
      · cases h

/-- The generic values in a single value: those under the texts of a bundle. -/
def FieldValue.values : FieldValue → List Value
  | .bundle entries => entries.map Prod.snd
  | _ => []

/-- The kinds of single values that come with the format. Two of them can be declared, although
no field carries them. -/
inductive ValueKind.BuiltIn : ValueKind → Prop where
  /-- The kinds with a payload of their own. -/
  | plain (kind : PlainKind) : BuiltIn (.plain kind)
  /-- Arrays of signed 64-bit integers. -/
  | longArray : BuiltIn (.uncarried (.array .long))
  /-- Unsigned 32-bit integers. -/
  | unsigned : BuiltIn (.uncarried (.unsupported "u32"))

namespace Write

variable {ε ε' α : Type}

/-- Steps that append the same bytes wherever they start, or fail in the same way, and this for
certain causes only. -/
def FailsFor (causes : ε → Prop) (write : Write ε Unit) : Prop :=
  ∃ result, Emits write result ∧ ∀ e, result = .error e → causes e

namespace FailsFor

variable {causes causes' : ε → Prop} {write write' : Write ε Unit}

/-- What succeeds has no causes to fail. -/
lemma of_emits {bs : List UInt8} (h : Emits write (.ok bs)) : FailsFor causes write :=
  ⟨.ok bs, h, fun _ he => nomatch he⟩

/-- What emits a failure fails for it. -/
lemma of_error {e : ε} (h : Emits write (.error e)) (he : causes e) : FailsFor causes write :=
  ⟨.error e, h, fun _ hsame => by
    cases hsame
    exact he⟩

/-- Doing nothing does not fail. -/
lemma pure : FailsFor causes (Pure.pure ()) :=
  of_emits Emits.pure

/-- Failing at once fails for the failure. -/
lemma throw {e : ε} (he : causes e) : FailsFor causes (MonadExcept.throw e : Write ε Unit) :=
  of_error (Emits.throw e) he

/-- Writing bytes does not fail. -/
lemma raw (bs : List UInt8) : FailsFor causes (Write.raw bs) :=
  of_emits (Emits.raw bs)

/-- A step that fails for some reasons fails for more of them. -/
lemma mono (h : FailsFor causes write) (hcauses : ∀ e, causes e → causes' e) :
    FailsFor causes' write := by
  obtain ⟨result, hemits, hfails⟩ := h
  exact ⟨result, hemits, fun e he => hcauses e (hfails e he)⟩

/-- Steps that fail for some reasons fail for these one after another. -/
lemma bind (h : FailsFor causes write) (h' : FailsFor causes write') :
    FailsFor causes (write >>= fun _ => write') := by
  obtain ⟨result, hemits, hfails⟩ := h
  cases result with
  | error e => exact of_error (hemits.bind_error _) (hfails e rfl)
  | ok bs =>
    obtain ⟨result', hemits', hfails'⟩ := h'
    have hboth := hemits.bind hemits'
    cases result' with
    | error e => exact of_error hboth (hfails' e rfl)
    | ok bs' => exact of_emits hboth

/-- Items that fail for some reasons fail for these one by one. -/
lemma each {write : α → Write ε Unit} {items : List α}
    (h : ∀ a ∈ items, FailsFor causes (write a)) : FailsFor causes (Write.each write items) := by
  induction items with
  | nil => exact pure
  | cons a rest ih =>
    rw [each_cons]
    exact bind (h a List.mem_cons_self) (ih fun b hb => h b (List.mem_cons_of_mem a hb))

/-- A step whose failures are renamed fails for the renamed reasons. -/
lemma mapError {causes : ε' → Prop} (f : ε → ε') (h : FailsFor (fun e => causes (f e)) write) :
    FailsFor causes (mapError f write) := by
  obtain ⟨result, hemits, hfails⟩ := h
  cases result with
  | error e => exact of_error (hemits.mapError f) (hfails e rfl)
  | ok bs => exact of_emits (hemits.mapError f)

/-! ## Payloads with a length -/

/-- A length fails only if it does not fit its word. -/
lemma length (count : Nat) : FailsFor BufferError.Overflow (Write.length count) := by
  unfold Write.length
  split
  · exact raw _
  · exact throw (.mk count)

/-- An array of bytes fails only if its length does not fit its word. -/
lemma byteArray (bytes : Array UInt8) : FailsFor BufferError.Overflow (Write.byteArray bytes) := by
  rw [byteArray_eq]
  exact (length _).bind (raw _)

/-- A text fails only if its length does not fit its word. -/
lemma string16 (text : String) : FailsFor BufferError.Overflow (Write.string16 text) := by
  rw [string16_eq]
  exact (length _).bind (raw _)

section Payloads

variable {maxDepth levels : Nat} {deep : Prop}

/-- A step of the buffer layer inside a payload. -/
lemma lift {write : Write BufferError Unit} (h : FailsFor BufferError.Overflow write) :
    FailsFor (FieldError.Legitimate maxDepth deep) (liftM write : Write FieldError Unit) :=
  mapError FieldError.buffer (h.mono fun e he => by
    cases he with
    | mk length => exact .tooLong length)

/-- A counted collection. -/
lemma arrayOf {write : α → Write FieldError Unit} {items : List α}
    (h : ∀ a ∈ items, FailsFor (FieldError.Legitimate maxDepth deep) (write a)) :
    FailsFor (FieldError.Legitimate maxDepth deep)
      ((liftM (Write.length items.length) : Write FieldError Unit) >>= fun _ =>
        Write.each write items) :=
  (lift (length items.length)).bind (each h)

/-- An array of texts fails for legitimate reasons. -/
lemma stringArray (items : List String) :
    FailsFor (FieldError.Legitimate maxDepth deep) (Write.stringArray items) :=
  arrayOf fun text _ => lift (string16 text)

/-- An array of 32-bit words fails for legitimate reasons. -/
lemma intArray (items : List Int32) :
    FailsFor (FieldError.Legitimate maxDepth deep) (Write.intArray items) :=
  arrayOf fun _ _ => raw _

/-- An array of 64-bit words fails for legitimate reasons. -/
lemma longArray (items : List Int64) :
    FailsFor (FieldError.Legitimate maxDepth deep) (Write.longArray items) :=
  arrayOf fun _ _ => raw _

/-- A handle fails for legitimate reasons, that is for none. -/
lemma binder (handle : BinderHandle) :
    FailsFor (FieldError.Legitimate maxDepth deep) handle.write :=
  (raw _).bind ((raw _).bind ((raw _).bind (raw _)))

/-! ## Generic values -/

/-- One of several values fails for nesting too deep if it does. -/
lemma among {bound : Nat} {v : Value} {vs : List Value} {write : Write FieldError Unit}
    (h : FailsFor (FieldError.Legitimate maxDepth (bound < v.depth)) write) (hv : v ∈ vs) :
    FailsFor (FieldError.Legitimate maxDepth (Value.AnyDeeper bound vs)) write :=
  h.mono fun _ he => he.mono fun hdeep => ⟨v, hv, hdeep⟩

/-- A bundle fails as the values in it do, or because it is too long as a whole. -/
lemma bundleWith {bound : Nat} {write : Value → Write FieldError Unit} {entries : Bundle}
    (h : ∀ entry ∈ entries,
      FailsFor (FieldError.Legitimate maxDepth (bound < entry.2.depth)) (write entry.2)) :
    FailsFor (FieldError.Legitimate maxDepth (Value.AnyDeeper bound (entries.map Prod.snd)))
      (Write.bundleWith write entries) := by
  have hentries :
      FailsFor (FieldError.Legitimate maxDepth (Value.AnyDeeper bound (entries.map Prod.snd)))
        (bundleEntries write entries) :=
    arrayOf fun entry hentry => (lift (string16 entry.1)).bind
      ((h entry hentry).among (List.mem_map_of_mem hentry))
  obtain ⟨result, hemits, hfails⟩ := hentries
  have hbundle := hemits.bundleWith
  cases result with
  | error e => exact of_error hbundle (hfails e rfl)
  | ok body =>
    simp only [Except.bind, bundleFrame] at hbundle
    split at hbundle
    · exact of_emits hbundle
    · exact of_error hbundle (.tooLong body.length)

/-- The values in a value need one level more. -/
lemma deeper {v : Value} (hnests : 0 < v.depth)
    {next : (Value → Write FieldError Unit) → Write FieldError Unit}
    (h : ∀ left, levels = left + 1 →
      FailsFor (FieldError.Legitimate maxDepth (Value.AnyDeeper left v.children))
        (next (Value.writeWithin maxDepth left))) :
    FailsFor (FieldError.Legitimate maxDepth (levels < v.depth))
      (Write.deeper maxDepth (Value.writerBelow maxDepth levels) >>= next) := by
  cases levels with
  | zero => exact throw (.tooDeep hnests)
  | succ left =>
    refine (h left rfl).mono fun e he => he.mono fun ⟨child, hchild, hdeep⟩ => ?_
    exact Nat.lt_of_le_of_lt hdeep (Value.depth_lt_of_child hchild)

/-- A value fails as the values in it do one level deeper, or for want of a level. -/
lemma writeWith (h : ∀ left, levels = left + 1 → ∀ v : Value,
      FailsFor (FieldError.Legitimate maxDepth (left < v.depth)) (v.writeWithin maxDepth left))
    (v : Value) :
    FailsFor (FieldError.Legitimate maxDepth (levels < v.depth))
      (Value.writeWith maxDepth (Value.writerBelow maxDepth levels) v) := by
  unfold Value.writeWith
  refine (raw _).bind ?_
  cases v with
  | null => exact pure
  | string text => exact lift (string16 text)
  | map entries =>
    have hnests : 0 < (Value.map entries).depth := Nat.succ_pos _
    refine deeper hnests fun left hleft => arrayOf fun entry hentry => ?_
    have hmem : ∀ child ∈ [entry.1, entry.2], child ∈ (Value.map entries).children :=
      fun child hchild => List.mem_flatMap.mpr ⟨entry, hentry, hchild⟩
    exact ((h left hleft entry.1).among (hmem _ (by simp))).bind
      ((h left hleft entry.2).among (hmem _ (by simp)))
  | bundle entries =>
    have hnests : 0 < (Value.bundle entries).depth := Nat.succ_pos _
    exact deeper hnests fun left hleft => bundleWith fun entry _ => h left hleft entry.2
  | list items =>
    have hnests : 0 < (Value.list items).depth := Nat.succ_pos _
    exact deeper hnests fun left hleft => arrayOf fun item hitem => (h left hleft item).among hitem
  | byteArray bytes => exact lift (byteArray bytes)
  | stringArray items => exact stringArray items
  | binder handle => exact binder handle
  | intArray items => exact intArray items
  | longArray items => exact longArray items
  | int n | short n | long n | float x | double x | bool b | byte n => exact raw _

/-- A value fails because a length in it does not fit, or because it nests deeper than there are
levels left. -/
theorem writeWithin (maxDepth levels : Nat) (v : Value) :
    FailsFor (FieldError.Legitimate maxDepth (levels < v.depth))
      (v.writeWithin maxDepth levels) := by
  induction levels generalizing v with
  | zero =>
    refine writeWith (fun left hleft => ?_) v
    cases hleft
  | succ levels ih =>
    refine writeWith (fun left hleft v => ?_) v
    cases hleft
    exact ih v

/-- A generic value, as one of those in a payload. -/
lemma value {v : Value} {vs : List Value} (hv : v ∈ vs) :
    FailsFor (FieldError.Legitimate maxDepth (Value.AnyDeeper maxDepth vs)) (v.write 0 maxDepth) :=
  (writeWithin maxDepth maxDepth v).among hv

/-! ## Payloads of fields -/

/-- A single value: the values in it are those of a bundle. -/
lemma fieldValue (v : FieldValue) :
    FailsFor (FieldError.Legitimate maxDepth (Value.AnyDeeper maxDepth v.values))
      (v.write maxDepth) := by
  cases v with
  | bool b | byte n | short n | int n | long n | float x | double x => exact raw _
  | string text => exact lift (string16 text)
  | byteArray bytes => exact lift (byteArray bytes)
  | byteArrayArray items => exact arrayOf fun bytes _ => lift (byteArray bytes)
  | intArray items => exact intArray items
  | floatArray items => exact arrayOf fun _ _ => raw _
  | stringArray items => exact stringArray items
  | bundle entries => exact bundleWith fun entry _ => writeWithin maxDepth maxDepth entry.2
  | binder handle => exact binder handle

/-- A single value of a kind that comes with the format, in a field that has a layout. -/
theorem valueKind {kind : ValueKind} (hkind : kind.BuiltIn) {options : FieldOptions}
    {layout : Semantic} (hlayout : kind.shape.resolve options = .ok layout) (type : String)
    (v : FieldValue) :
    FailsFor (FieldError.Legitimate maxDepth (Value.AnyDeeper maxDepth v.values))
      (kind.write type maxDepth v) := by
  cases hkind with
  | plain kind => exact fieldValue v
  | longArray => cases hlayout
  | unsigned => cases hlayout

/-- An element without its tag: a list has such a layout only for elements that can be written in
it. -/
lemma compact {element : ElementKind} (helement : element.Own) {options : FieldOptions}
    {layout : Semantic} (hlayout : (Shape.list element.shape).resolve options = .ok layout)
    (hcompact : layout ≠ .list) {v : Value} (hv : element.ofValue v = .ok v) :
    FailsFor (FieldError.Legitimate maxDepth deep) (Write.compact layout v) := by
  have hobject : ∀ type, element.shape ≠ .object type := by
    cases element with
    | refined kind => exact helement.elim
    | _ => simp [ElementKind.shape]
  rcases Shape.resolve_list hobject hlayout with rfl | hsemantic
  · exact absurd rfl hcompact
  cases element with
  | int | bool | long | float | double =>
    cases hsemantic
    cases v <;> cases ElementKind.tag_of_expect hv
    exact raw _
  | string =>
    cases hsemantic
    cases v <;> cases ElementKind.tag_of_expect hv
    exact lift (string16 _)
  | refined kind => exact helement.elim
  | _ => cases hsemantic

/-- The payload of a list fails for legitimate reasons, if its elements are of the declared kind. -/
theorem list {element : ElementKind} (helement : element.Own) {options : FieldOptions}
    {layout : Semantic} (hlayout : (Shape.list element.shape).resolve options = .ok layout)
    {items : List Value} (hitems : ∀ v ∈ items, element.ofValue v = .ok v) :
    FailsFor (FieldError.Legitimate maxDepth (Value.AnyDeeper maxDepth items))
      (Write.list element layout maxDepth items) := by
  refine arrayOf fun v hv => ?_
  rw [helement.toValue]
  split
  case isTrue => exact value hv
  case isFalse hcompact => exact compact helement hlayout hcompact (hitems v hv)

/-- The payload of a map fails for legitimate reasons. -/
theorem map {keyKind valueKind : ElementKind} (hkey : keyKind.Own) (hvalue : valueKind.Own)
    (entries : List (Value × Value)) :
    FailsFor (FieldError.Legitimate maxDepth
        (Value.AnyDeeper maxDepth (entries.flatMap fun entry => [entry.1, entry.2])))
      (Write.map keyKind valueKind maxDepth entries) := by
  refine arrayOf fun entry hentry => ?_
  have hmem : ∀ v ∈ [entry.1, entry.2], v ∈ entries.flatMap fun entry => [entry.1, entry.2] :=
    fun v hv => List.mem_flatMap.mpr ⟨entry, hentry, hv⟩
  rw [hkey.toValue, hvalue.toValue]
  exact (value (hmem _ (by simp))).bind (value (hmem _ (by simp)))

end Payloads

end FailsFor

end Write

end TaggedParcel
