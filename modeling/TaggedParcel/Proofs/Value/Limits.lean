import TaggedParcel.Proofs.Value.Locality

set_option relaxedAutoImplicit false
set_option autoImplicit false

/-!
# Reading values under larger limits

Limits only refuse. A value that is read under some limits is read under larger ones, and is the
same value, read from the same bytes. Of larger limits only a kind with a meaning of its own may
make something else, since it sees the limits.

## Main definitions

* `Limits.AtMost` — limits no larger than others, in each of the three bounds.
* `Read.Upheld` — what one step answers, another one answers as well.
* `ValueKind.Tolerant` — kinds whose own meaning does not change under larger limits.

## Main results

* `Read.Upheld.value`, `Read.Upheld.bundle` — generic values and bundles.
* `Read.Upheld.plainKind`, `Read.Upheld.valueKind` — single values.
* `Read.Upheld.listPayload`, `Read.Upheld.mapPayload` — lists and maps.
-/

namespace TaggedParcel

/-- Limits that refuse whatever larger limits refuse. -/
structure Limits.AtMost (limits limits' : Limits) : Prop where
  /-- No more levels. -/
  depth_le : limits.maxDepth ≤ limits'.maxDepth
  /-- No more elements. -/
  elements_le : limits.maxElements ≤ limits'.maxElements
  /-- No more bytes. -/
  bytes_le : limits.maxObjectBytes ≤ limits'.maxObjectBytes

/-- Kinds that accept under larger limits what they accept under smaller ones, as the same value.
Only kinds with a meaning of their own see the limits. -/
def ValueKind.Tolerant (limits limits' : Limits) : ValueKind → Prop
  | .refined kind => ∀ type v a,
    kind.ofPayload type limits v = .ok a → kind.ofPayload type limits' v = .ok a
  | .plain _ | .uncarried _ => True

namespace Read

variable {ε ε' α β : Type}

/-- What the first step answers from a reader, the second one answers from it as well, and leaves
the same reader. -/
def Upheld (step step' : Read ε α) : Prop :=
  ∀ ⦃r : Reader⦄ ⦃a : α⦄ ⦃r' : Reader⦄, step r = .ok a r' → step' r = .ok a r'

namespace Upheld

variable {step step' : Read ε α}

/-- A step that sees no limits is upheld. -/
lemma refl (step : Read ε α) : Upheld step step :=
  fun _ _ _ h => h

/-- What fails at once is upheld by anything. -/
lemma throw (e : ε) (step' : Read ε α) : Upheld (MonadExcept.throw e) step' :=
  fun _ _ _ h => nomatch h

/-- Steps that are upheld are upheld one after another. -/
lemma bind {next next' : α → Read ε β} (h : Upheld step step')
    (hnext : ∀ a, Upheld (next a) (next' a)) : Upheld (step >>= next) (step' >>= next') := by
  intro r b r' hrun
  obtain ⟨a, r₁, hstep, hrest⟩ := bind_ok hrun
  rw [bind_apply, h hstep]
  exact hnext a hrest

/-- A step before two that differ. -/
lemma after (step : Read ε α) {next next' : α → Read ε β}
    (hnext : ∀ a, Upheld (next a) (next' a)) : Upheld (step >>= next) (step >>= next') :=
  bind (refl step) hnext

/-- Two steps that differ before an answer. -/
lemma map (h : Upheld step step') (f : α → β) :
    Upheld (step >>= fun a => pure (f a)) (step' >>= fun a => pure (f a)) :=
  bind h fun _ => refl _

/-- A block under a limit on the position is upheld if the block is. -/
lemma within (refuse : BufferError → ε) (stop : Nat) (h : Upheld step step') :
    Upheld (within refuse stop step) (within refuse stop step') := by
  intro r a r' hrun
  unfold Read.within at hrun ⊢
  split at hrun
  · cases hrun
  · rename_i hlimit
    rw [if_neg hlimit]
    split at hrun
    · cases hrun
    · rename_i hpos
      rw [if_neg hpos]
      cases hstep : step { r with limit := stop } with
      | ok b r₁ =>
        rw [hstep] at hrun
        rw [h hstep]
        exact hrun
      | error e r₁ =>
        rw [hstep] at hrun
        cases hrun

/-- A framed block is upheld if the block is. -/
lemma framed (refuse : BufferError → ε) (size : Nat) (h : Upheld step step') :
    Upheld (framed refuse size step) (framed refuse size step') :=
  after _ fun _ => bind (within refuse _ h) fun _ => refl _

/-- Repeating a step that is upheld is upheld. -/
lemma times (h : Upheld step step') (count : Nat) :
    Upheld (times count step) (times count step') := by
  have hgo : ∀ count done, Upheld (Read.times.go step count done)
      (Read.times.go step' count done) := by
    intro count
    induction count with
    | zero => exact fun done => refl _
    | succ count ih =>
      intro done
      rw [times_go_succ, times_go_succ]
      exact bind h fun a => ih (a :: done)
  exact hgo count []

/-- A result inside a payload. -/
lemma ofResult {result result' : Except FieldError α}
    (h : ∀ a, result = .ok a → result' = .ok a) :
    Upheld (liftM result : Read FieldError α) (liftM result') := by
  cases result with
  | ok a =>
    rw [h a rfl]
    exact refl _
  | error e => exact throw e _

/-! ## Counted payloads -/

section

variable {step step' : Read FieldError α} {limits limits' : Limits} (hle : limits.AtMost limits')
include hle

/-- A count that passes a limit passes a larger one. -/
lemma checkElements (count : Nat) :
    Upheld (liftM (limits.checkElements count) : Read FieldError Unit)
      (liftM (limits'.checkElements count)) := by
  have hmax := hle.elements_le
  unfold Limits.checkElements
  split
  · exact throw (FieldError.limit ⟨.elements, limits.maxElements, count⟩) _
  · rw [if_neg (by omega)]
    exact refl _

/-- A count is upheld. -/
lemma count : Upheld (count limits) (count limits') := by
  refine after _ fun n => ?_
  cases n with
  | none => exact refl _
  | some n => exact bind (checkElements hle n) fun _ => refl _

/-- A count that may be null is upheld. -/
lemma countOrZero : Upheld (countOrZero limits) (countOrZero limits') :=
  after _ fun _ => bind (checkElements hle _) fun _ => refl _

/-- A counted array is upheld if its items are. -/
lemma arrayOf (h : Upheld step step') : Upheld (arrayOf limits step) (arrayOf limits' step') := by
  refine bind (count hle) fun n => ?_
  cases n with
  | none => exact refl _
  | some n => exact map (times h n) _

/-! ## Generic values -/

/-- A bundle is upheld if the values in it are. -/
lemma bundleWith {item item' : Read FieldError Value} (h : Upheld item item') :
    Upheld (bundleWith limits item) (bundleWith limits' item') := by
  rw [bundleWith_eq, bundleWith_eq]
  refine after _ fun size => ?_
  cases size with
  | none => exact refl _
  | some size =>
    refine after _ fun magic => ?_
    split
    · exact refl _
    · refine map (framed .buffer size (bind (countOrZero hle) fun count => times ?_ count)) _
      exact after _ fun key => map h _

/-- A value is read under larger limits, if the values in it are. -/
lemma readWith {inner inner' : Option (Read FieldError Value)}
    (h : ∀ item ∈ inner, ∃ item' ∈ inner', Upheld item item') :
    Upheld (Value.readWith limits inner) (Value.readWith limits' inner') := by
  -- a container first asks for the step that reads the values in it
  have hdeeper : ∀ next next' : Read FieldError Value → Read FieldError Value,
      (∀ item item', Upheld item item' → Upheld (next item) (next' item')) →
        Upheld (Read.deeper limits inner >>= next) (Read.deeper limits' inner' >>= next') := by
    intro next next' hnext
    cases inner with
    | none => exact throw (FieldError.limit (.depth limits)) _
    | some item =>
      obtain ⟨item', hitem', hitem⟩ := h item rfl
      cases hitem'
      exact hnext item item' hitem
  refine after _ fun code => after _ fun tag => ?_
  cases tag with
  | map =>
    refine hdeeper _ _ fun item item' hitem => bind (countOrZero hle) fun count => map ?_ _
    exact times (bind hitem fun key => map hitem _) count
  | bundle => exact hdeeper _ _ fun item item' hitem => map (bundleWith hle hitem) _
  | list =>
    exact hdeeper _ _ fun item item' hitem =>
      bind (countOrZero hle) fun count => map (times hitem count) _
  | stringArray => exact map (arrayOf hle (refl _)) _
  | intArray => exact map (arrayOf hle (refl _)) _
  | longArray => exact map (arrayOf hle (refl _)) _
  | _ => exact refl _

/-- A value is upheld where more levels of nesting are left. -/
lemma readWithin {levels levels' : Nat} (hlevels : levels ≤ levels') :
    Upheld (Value.readWithin limits levels) (Value.readWithin limits' levels') := by
  induction levels generalizing levels' with
  | zero =>
    have hnone : ∀ inner', Upheld (Value.readWith limits none) (Value.readWith limits' inner') :=
      fun inner' => readWith hle fun _ h => nomatch h
    cases levels' with
    | zero => exact hnone none
    | succ levels' => exact hnone (some _)
  | succ levels ih =>
    obtain ⟨levels', rfl⟩ : ∃ n, levels' = n + 1 := ⟨levels' - 1, by omega⟩
    refine readWith hle ?_
    rintro item ⟨⟩
    exact ⟨_, rfl, ih (by omega)⟩

/-- A value is upheld at any level of nesting. -/
theorem value (level : Nat) : Upheld (Value.read limits level) (Value.read limits' level) := by
  have hmax := hle.depth_le
  exact readWithin hle (by omega)

/-- A bundle is upheld at any level of nesting. -/
theorem bundle (level : Nat) : Upheld (Bundle.read limits level) (Bundle.read limits' level) :=
  bundleWith hle (value hle level)

/-! ## Single values -/

/-- The payload of a plain kind is upheld. -/
theorem plainKind (kind : PlainKind) : Upheld (kind.read limits) (kind.read limits') := by
  cases kind with
  | byteArrayArray => exact map (arrayOf hle (refl _)) _
  | intArray => exact map (arrayOf hle (refl _)) _
  | floatArray => exact map (arrayOf hle (refl _)) _
  | stringArray => exact map (arrayOf hle (refl _)) _
  | bundle => exact map (bundle hle 0) _
  | _ => exact refl _

/-- The payload of a single value is upheld if its kind is tolerant. -/
theorem valueKind {kind : ValueKind} (hkind : kind.Tolerant limits limits') (type : String) :
    Upheld (kind.read type limits) (kind.read type limits') := by
  cases kind with
  | plain kind => exact plainKind hle kind
  | refined kind =>
    refine bind (plainKind hle kind.carrier) fun v => ?_
    cases v with
    | none => exact refl _
    | some v => exact ofResult (hkind type v)
  | uncarried shape => exact refl _

/-! ## Lists and maps -/

/-- The payload of a list is upheld. -/
theorem listPayload (kind : ElementKind) (layout : Semantic) :
    Upheld (Read.list kind layout limits) (Read.list kind layout limits') := by
  refine map (arrayOf hle ?_) _
  dsimp only
  split
  · exact bind (value hle 0) fun _ => refl _
  · exact refl _

/-- An element is upheld. -/
lemma element (kind : ElementKind) : Upheld (element kind limits) (element kind limits') :=
  bind (value hle 0) fun _ => refl _

/-- The payload of a map is upheld. -/
theorem mapPayload (keyKind valueKind : ElementKind) :
    Upheld (Read.map keyKind valueKind limits) (Read.map keyKind valueKind limits') :=
  map (arrayOf hle (bind (element hle keyKind) fun _ => map (element hle valueKind) _)) _

end

end Upheld

end Read

end TaggedParcel
