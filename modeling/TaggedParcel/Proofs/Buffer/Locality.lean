import TaggedParcel.Proofs.Buffer.Window
import TaggedParcel.Value.Basic

set_option relaxedAutoImplicit false
set_option autoImplicit false

/-!
# Reading is local

A step on a reader is *local* if all it does is to consume some of the bytes ahead, and if what
it answers depends on these bytes alone: not on where in which buffer they lie, nor on what
stands before the position or behind the limit. Failures may differ in the offsets that they
name, so they are only compared as failures.

## Main definitions

* `Read.Matched` — two results with the same answer, after the same number of bytes.
* `Read.Local` — steps that have matching results wherever the bytes ahead are the same.
* `Read.Assembled` — steps that are put together from takes of bytes.

## Main results

* `Read.Local.moves` — a local step moves forward, and not behind the limit.
* `Read.Local.bind`, `Read.Local.framed` — local steps compose.
* `Read.Assembled.local` — steps that are put together from takes are local.
-/

namespace TaggedParcel

/-- A step and what follows it: the rest is run on the state that the step leaves. -/
lemma bind_apply {ε σ α β : Type} (step : EStateM ε σ α) (next : α → EStateM ε σ β) (s : σ) :
    (step >>= next) s =
      match step s with
      | .ok a s' => next a s'
      | .error e s' => .error e s' := by
  show EStateM.bind step next s = _
  unfold EStateM.bind
  cases step s <;> rfl

/-- Where a step and what follows it succeed, each of them does. -/
lemma bind_ok {ε σ α β : Type} {step : EStateM ε σ α} {next : α → EStateM ε σ β} {s s' : σ} {b : β}
    (h : (step >>= next) s = .ok b s') :
    ∃ a s₁, step s = .ok a s₁ ∧ next a s₁ = .ok b s' := by
  rw [bind_apply] at h
  cases hstep : step s with
  | ok a s₁ =>
    rw [hstep] at h
    exact ⟨a, s₁, rfl, h⟩
  | error e s₁ =>
    rw [hstep] at h
    cases h

/-- Where a step and what follows it fail, one of them does. -/
lemma bind_error {ε σ α β : Type} {step : EStateM ε σ α} {next : α → EStateM ε σ β} {s s' : σ}
    {e : ε} (h : (step >>= next) s = .error e s') :
    step s = .error e s' ∨ ∃ a s₁, step s = .ok a s₁ ∧ next a s₁ = .error e s' := by
  rw [bind_apply] at h
  cases hstep : step s with
  | ok a s₁ =>
    rw [hstep] at h
    exact .inr ⟨a, s₁, rfl, h⟩
  | error e₁ s₁ =>
    rw [hstep] at h
    cases h
    exact .inl rfl

namespace Read

variable {ε ε' α β : Type}

/-- Results of two runs, one from each reader, that answer the same, or both fail, and that
consumed the same number of the bytes ahead. -/
inductive Matched (r₁ r₂ : Reader) :
    EStateM.Result ε Reader α → EStateM.Result ε Reader α → Prop where
  /-- Both runs answer. -/
  | ok (a : α) (n : Nat) (hn : n ≤ r₁.ahead.length) :
    Matched r₁ r₂ (.ok a (r₁.advance n)) (.ok a (r₂.advance n))
  /-- Both runs fail. -/
  | error (e₁ e₂ : ε) (n : Nat) (hn : n ≤ r₁.ahead.length) :
    Matched r₁ r₂ (.error e₁ (r₁.advance n)) (.error e₂ (r₂.advance n))

/-- Steps whose results match wherever the bytes ahead are the same. -/
def Local (step : Read ε α) : Prop :=
  ∀ r₁ r₂ : Reader, r₁.Sound → r₂.Sound → r₁.ahead = r₂.ahead →
    Matched r₁ r₂ (step r₁) (step r₂)

/-- A block that may read no more than `size` bytes, and behind them reading goes on. -/
def framed (refuse : BufferError → ε) (size : Nat) (block : Read ε α) : Read ε α := do
  let start ← position
  let a ← within refuse (start + size) block
  mapError refuse (seek (start + size))
  return a

/-- Repeating a step once more. -/
lemma times_go_succ (step : Read ε α) (count : Nat) (done : List α) :
    times.go step (count + 1) done = step >>= fun a => times.go step count (a :: done) := by
  funext r
  rw [bind_apply]
  cases hstep : step r with
  | ok a r' => simp only [times.go, hstep]
  | error e r' => simp only [times.go, hstep]

namespace Local

/-- A local step moves forward, by no more than the bytes ahead. -/
theorem moves {step : Read ε α} (h : Local step) {r : Reader} (hr : r.Sound) :
    (∃ a n, n ≤ r.ahead.length ∧ step r = .ok a (r.advance n)) ∨
      ∃ e n, n ≤ r.ahead.length ∧ step r = .error e (r.advance n) := by
  have hmatch := h r r hr hr rfl
  generalize step r = result at hmatch ⊢
  cases hmatch with
  | ok a n hn => exact .inl ⟨a, n, hn, rfl⟩
  | error e _ n hn => exact .inr ⟨e, n, hn, rfl⟩

/-- Answering at once is local. -/
lemma pure (a : α) : Local (Pure.pure a : Read ε α) :=
  fun _ _ _ _ _ => .ok a 0 (Nat.zero_le _)

/-- Failing at once is local. -/
lemma throw (e : ε) : Local (MonadExcept.throw e : Read ε α) :=
  fun _ _ _ _ _ => .error e e 0 (Nat.zero_le _)

/-- Local steps are local one after another. -/
lemma bind {step : Read ε α} {next : α → Read ε β} (h : Local step)
    (hnext : ∀ a, Local (next a)) : Local (step >>= next) := by
  intro r₁ r₂ hr₁ hr₂ hahead
  rw [bind_apply, bind_apply]
  have hmatch := h r₁ r₂ hr₁ hr₂ hahead
  generalize step r₁ = result₁, step r₂ = result₂ at hmatch ⊢
  cases hmatch with
  | error e₁ e₂ n hn => exact .error e₁ e₂ n hn
  | ok a n hn =>
    have hn₂ : n ≤ r₂.ahead.length := hahead ▸ hn
    have hrest := hnext a (r₁.advance n) (r₂.advance n) (hr₁.advance hn) (hr₂.advance hn₂)
      (by rw [Reader.ahead_advance, Reader.ahead_advance, hahead])
    dsimp only
    generalize next a (r₁.advance n) = final₁, next a (r₂.advance n) = final₂ at hrest ⊢
    -- the second step counts from behind the first one
    cases hrest with
    | ok b m hm =>
      rw [Reader.ahead_advance, List.length_drop] at hm
      rw [Reader.advance_advance, Reader.advance_advance]
      exact .ok b (n + m) (by omega)
    | error e₁ e₂ m hm =>
      rw [Reader.ahead_advance, List.length_drop] at hm
      rw [Reader.advance_advance, Reader.advance_advance]
      exact .error e₁ e₂ (n + m) (by omega)

/-- Renaming failures keeps a step local. -/
lemma mapError {step : Read ε α} (f : ε → ε') (h : Local step) : Local (mapError f step) := by
  intro r₁ r₂ hr₁ hr₂ hahead
  have hmatch := h r₁ r₂ hr₁ hr₂ hahead
  unfold Read.mapError
  generalize step r₁ = result₁, step r₂ = result₂ at hmatch ⊢
  cases hmatch with
  | ok a n hn => exact .ok a n hn
  | error e₁ e₂ n hn => exact .error _ _ n hn

/-- A padded payload is local. -/
lemma takePadded {wanted count : Nat} (hw : wanted ≤ count) : Local (takePadded wanted count) := by
  intro r₁ r₂ hr₁ hr₂ hahead
  by_cases h : count ≤ r₁.ahead.length
  · rw [takePadded_of_le hr₁ hw h, takePadded_of_le hr₂ hw (hahead ▸ h), hahead]
    exact .ok _ count h
  · rw [takePadded_of_lt hr₁ (by omega), takePadded_of_lt hr₂ (by rw [← hahead]; omega)]
    exact .error _ _ 0 (Nat.zero_le _)

end Local

/-- A framed block that has room is run on the narrowed reader, and what it leaves is passed
over. -/
lemma framed_of_le (refuse : BufferError → ε) {block : Read ε α} (h : Local block) {r : Reader}
    (hr : r.Sound) {size : Nat} (hsize : size ≤ r.ahead.length) :
    framed refuse size block r =
      match block (r.narrow size) with
      | .ok a _ => .ok a (r.advance size)
      | .error e r' => .error e { r' with limit := r.limit } := by
  have hlimit := Reader.limit_eq hr
  have hwithin := within_narrow refuse block hr hsize
  show (within refuse (r.pos + size) block >>= fun a =>
    mapError refuse (seek (r.pos + size)) >>= fun _ => pure a) r = _
  rw [bind_apply, hwithin]
  rcases h.moves (hr.narrow hsize) with ⟨a, n, -, hblock⟩ | ⟨e, n, -, hblock⟩
  · rw [hblock]
    dsimp only
    rw [bind_apply]
    simp only [mapError, seek]
    rw [if_neg (by omega)]
    rfl
  · rw [hblock]

/-- A framed block that has no room is refused. -/
lemma framed_of_lt (refuse : BufferError → ε) (block : Read ε α) {r : Reader} (hr : r.Sound)
    {size : Nat} (hsize : r.ahead.length < size) :
    framed refuse size block r = .error (refuse (.limitExceeded (r.pos + size) r.limit)) r := by
  show (within refuse (r.pos + size) block >>= fun a =>
    mapError refuse (seek (r.pos + size)) >>= fun _ => pure a) r = _
  rw [bind_apply, within_refused refuse block hr hsize]

/-- A framed block is local if the block is. -/
lemma Local.framed (refuse : BufferError → ε) (size : Nat) {block : Read ε α}
    (h : Local block) : Local (framed refuse size block) := by
  intro r₁ r₂ hr₁ hr₂ hahead
  by_cases hsize : size ≤ r₁.ahead.length
  · have hsize₂ : size ≤ r₂.ahead.length := hahead ▸ hsize
    rw [framed_of_le refuse h hr₁ hsize, framed_of_le refuse h hr₂ hsize₂]
    have hmatch := h (r₁.narrow size) (r₂.narrow size) (hr₁.narrow hsize) (hr₂.narrow hsize₂)
      (by rw [Reader.ahead_narrow hr₁ hsize, Reader.ahead_narrow hr₂ hsize₂, hahead])
    generalize block (r₁.narrow size) = result₁, block (r₂.narrow size) = result₂ at hmatch ⊢
    cases hmatch with
    | ok a n hn => exact .ok a size hsize
    | error e₁ e₂ n hn =>
      rw [Reader.ahead_narrow hr₁ hsize, List.length_take] at hn
      exact .error e₁ e₂ n (by omega)
  · rw [framed_of_lt refuse block hr₁ (by omega),
      framed_of_lt refuse block hr₂ (by rw [← hahead]; omega)]
    exact .error _ _ 0 (Nat.zero_le _)

/-! ## Assembled steps -/

/-- Steps that do nothing but to take bytes, to fail and to answer, one after another and under
narrower limits. -/
inductive Assembled : {ε α : Type} → Read ε α → Prop where
  /-- An answer. -/
  | pure {ε α : Type} (a : α) : Assembled (Pure.pure a : Read ε α)
  /-- A failure. -/
  | throw {ε α : Type} (e : ε) : Assembled (MonadExcept.throw e : Read ε α)
  /-- Bytes that are taken. -/
  | takePadded {wanted count : Nat} (hw : wanted ≤ count) : Assembled (takePadded wanted count)
  /-- One step after another. -/
  | bind {ε α β : Type} {step : Read ε α} {next : α → Read ε β} (h : Assembled step)
    (hnext : ∀ a, Assembled (next a)) : Assembled (step >>= next)
  /-- A step whose failures are renamed. -/
  | mapError {ε ε' α : Type} {step : Read ε α} (f : ε → ε') (h : Assembled step) :
    Assembled (mapError f step)
  /-- A step under a narrower limit. -/
  | framed {ε α : Type} (refuse : BufferError → ε) (size : Nat) {block : Read ε α}
    (h : Assembled block) : Assembled (framed refuse size block)

/-- Assembled steps are local. -/
theorem Assembled.local {step : Read ε α} (h : Assembled step) : Local step := by
  induction h with
  | pure a => exact Local.pure a
  | throw e => exact Local.throw e
  | takePadded hw => exact Local.takePadded hw
  | bind _ _ ih ihnext => exact Local.bind ih ihnext
  | mapError f _ ih => exact Local.mapError f ih
  | framed refuse size _ ih => exact Local.framed refuse size ih

namespace Assembled

/-- Repeating an assembled step is assembled. -/
lemma times {step : Read ε α} (h : Assembled step) (count : Nat) :
    Assembled (times count step) := by
  have hgo : ∀ count done, Assembled (Read.times.go step count done) := by
    intro count
    induction count with
    | zero => exact fun done => pure done.reverse
    | succ count ih =>
      intro done
      rw [times_go_succ]
      exact bind h fun a => ih (a :: done)
  exact hgo count []

end Assembled

/-! ## Words and payloads -/

namespace Assembled

/-- A word is assembled. -/
lemma word (width : Nat) : Assembled (word width) :=
  bind (takePadded (Nat.le_refl _)) fun _ => pure _

/-- A 32-bit word is assembled. -/
lemma u32 : Assembled u32 :=
  bind (word 4) fun _ => pure _

/-- A signed 32-bit word is assembled. -/
lemma i32 : Assembled i32 :=
  bind u32 fun _ => pure _

/-- A 64-bit word is assembled. -/
lemma u64 : Assembled u64 :=
  bind (word 8) fun _ => pure _

/-- A signed 64-bit word is assembled. -/
lemma i64 : Assembled i64 :=
  bind u64 fun _ => pure _

/-- A single-precision number is assembled. -/
lemma float : Assembled float :=
  bind u32 fun _ => pure _

/-- A double-precision number is assembled. -/
lemma double : Assembled double :=
  bind u64 fun _ => pure _

/-- A truth value is assembled. -/
lemma bool : Assembled bool :=
  bind i32 fun _ => pure _

/-- A length is assembled. -/
lemma length : Assembled length := by
  refine bind i32 fun n => ?_
  split
  · exact pure none
  · split
    · exact throw _
    · exact pure _

/-- An array of bytes is assembled. -/
lemma byteArray : Assembled byteArray := by
  refine bind length fun count => ?_
  cases count with
  | none => exact pure none
  | some count => exact bind (takePadded (le_padTo4 count)) fun _ => pure _

/-- A text is assembled. -/
lemma string16 : Assembled string16 := by
  refine bind length fun count => ?_
  cases count with
  | none => exact pure none
  | some count =>
    have hpad := le_padTo4 (2 * (count + 1))
    refine bind (takePadded (by omega)) fun bytes => ?_
    split
    · exact pure _
    · exact throw _

/-- A handle is assembled. -/
lemma binder : Assembled BinderHandle.read :=
  bind u32 fun _ => bind u32 fun _ => bind u64 fun _ => bind u64 fun _ => pure _

end Assembled

end Read

end TaggedParcel
