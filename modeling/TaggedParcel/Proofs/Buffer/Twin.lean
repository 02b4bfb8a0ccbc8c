import TaggedParcel.Proofs.Buffer.Locality

set_option relaxedAutoImplicit false
set_option autoImplicit false

/-!
# Two buffers with the same beginning

What is read before a limit does not depend on what stands behind it, nor on whether anything
does: run at the same position and under the same limit, in buffers with the same bytes up to the
limit, a step answers the same or fails the same, with every offset in its failure, and stops at
the same position.

## Main definitions

* `Alike` — two results with the same answer or failure, in related states.
* `Parallel` — computations whose results are alike, run from related states.
* `Reader.Twin` — readers that differ behind an extent at most, which holds their limit.

## Main results

* `Parallel.bind` — computations compose, whatever relates the states.
* `Read.Assembled.parallel` — steps that are put together from takes run alike on twins.
-/

namespace TaggedParcel

section Parallel

variable {ε ε' σ α β : Type} {R : σ → σ → Prop}

/-- Results of two runs that answer the same, or fail the same, in related states. -/
inductive Alike (R : σ → σ → Prop) : EStateM.Result ε σ α → EStateM.Result ε σ α → Prop where
  /-- Both runs answer. -/
  | ok (a : α) {s₁ s₂ : σ} (h : R s₁ s₂) : Alike R (.ok a s₁) (.ok a s₂)
  /-- Both runs fail. -/
  | error (e : ε) {s₁ s₂ : σ} (h : R s₁ s₂) : Alike R (.error e s₁) (.error e s₂)

/-- Computations whose results are alike, run from related states. -/
def Parallel (R : σ → σ → Prop) (m : EStateM ε σ α) : Prop :=
  ∀ s₁ s₂ : σ, R s₁ s₂ → Alike R (m s₁) (m s₂)

namespace Parallel

/-- Answering at once goes the same way from related states. -/
lemma pure (a : α) : Parallel R (Pure.pure a : EStateM ε σ α) :=
  fun _ _ h => .ok a h

/-- Failing at once goes the same way from related states. -/
lemma throw (e : ε) : Parallel R (MonadExcept.throw e : EStateM ε σ α) :=
  fun _ _ h => .error e h

/-- Steps that go the same way do so one after another. -/
lemma bind {m : EStateM ε σ α} {next : α → EStateM ε σ β} (h : Parallel R m)
    (hnext : ∀ a, Parallel R (next a)) : Parallel R (m >>= next) := by
  intro s₁ s₂ hs
  rw [bind_apply, bind_apply]
  have hm := h s₁ s₂ hs
  generalize m s₁ = result₁, m s₂ = result₂ at hm ⊢
  cases hm with
  | ok a hs => exact hnext a _ _ hs
  | error e hs => exact .error e hs

end Parallel

end Parallel

/-- The bytes of a range are the same in buffers with the same beginning. -/
lemma extract_eq_of_extract_eq {bytes₁ bytes₂ : Array UInt8} {extent : Nat}
    (h : bytes₁.extract 0 extent = bytes₂.extract 0 extent) {start stop : Nat}
    (hstop : stop ≤ extent) : bytes₁.extract start stop = bytes₂.extract start stop := by
  have hrange (bytes : Array UInt8) :
      bytes.extract start stop = (bytes.extract 0 extent).extract start stop := by
    rw [Array.extract_extract, Nat.zero_add, Nat.zero_add, Nat.min_eq_left hstop]
  rw [hrange bytes₁, hrange bytes₂, h]

/-- Readers at the same position and under the same limit. Their buffers may differ behind an
extent, which the limit does not exceed. -/
inductive Reader.Twin (extent : Nat) : Reader → Reader → Prop where
  /-- Up to the extent the bytes are the same. -/
  | intro {bytes₁ bytes₂ : Array UInt8} (pos limit : Nat) (hlimit : limit ≤ extent)
    (hbytes : bytes₁.extract 0 extent = bytes₂.extract 0 extent) :
    Twin extent ⟨bytes₁, pos, limit⟩ ⟨bytes₂, pos, limit⟩

/-- Readers of buffers that agree stand at the same position. -/
lemma Reader.Twin.pos_eq {extent : Nat} {r₁ r₂ : Reader} (h : Twin extent r₁ r₂) :
    r₁.pos = r₂.pos := by
  cases h
  rfl

/-- Readers of buffers that agree have the same limit. -/
lemma Reader.Twin.limit_eq {extent : Nat} {r₁ r₂ : Reader} (h : Twin extent r₁ r₂) :
    r₁.limit = r₂.limit := by
  cases h
  rfl

namespace Read

open Reader (Twin)

variable {ε ε' α : Type} {extent : Nat}

/-- Renaming failures does not matter to whether a step goes the same way. -/
lemma parallel_mapError {step : Read ε α} (f : ε → ε') (h : Parallel (Twin extent) step) :
    Parallel (Twin extent) (mapError f step) := by
  intro r₁ r₂ hr
  have hstep := h r₁ r₂ hr
  unfold mapError
  generalize step r₁ = result₁, step r₂ = result₂ at hstep ⊢
  cases hstep with
  | ok a hr => exact .ok a hr
  | error e hr => exact .error (f e) hr

/-- The position is the same in two buffers that agree. -/
lemma parallel_position : Parallel (Twin extent) (position : Read ε Nat) := by
  rintro _ _ ⟨pos, limit, hlimit, hbytes⟩
  exact .ok pos (.intro pos limit hlimit hbytes)

/-- The limit is the same in two buffers that agree. -/
lemma parallel_limit : Parallel (Twin extent) (limit : Read ε Nat) := by
  rintro _ _ ⟨pos, limit, hlimit, hbytes⟩
  exact .ok limit (.intro pos limit hlimit hbytes)

/-- Moving to a position goes the same way in two buffers that agree. -/
lemma parallel_seek (target : Nat) : Parallel (Twin extent) (seek target) := by
  rintro _ _ ⟨pos, limit, hlimit, hbytes⟩
  unfold seek
  dsimp only
  split
  · exact .error _ (.intro pos limit hlimit hbytes)
  · exact .ok () (.intro target limit hlimit hbytes)

/-- A padded payload is the same in two buffers that agree. -/
lemma parallel_takePadded {wanted count : Nat} (hw : wanted ≤ count) :
    Parallel (Twin extent) (takePadded wanted count) := by
  rintro _ _ ⟨pos, limit, hlimit, hbytes⟩
  unfold takePadded Reader.remaining
  dsimp only
  split
  · exact .error _ (.intro pos limit hlimit hbytes)
  · by_cases hzero : wanted = 0
    · -- nothing is taken, wherever the position is
      rw [hzero, Nat.add_zero, Array.extract_empty_of_stop_le_start (Nat.le_refl _),
        Array.extract_empty_of_stop_le_start (Nat.le_refl _)]
      exact .ok _ (.intro (pos + count) limit hlimit hbytes)
    · rw [extract_eq_of_extract_eq hbytes (show pos + wanted ≤ extent by omega)]
      exact .ok _ (.intro (pos + count) limit hlimit hbytes)

/-- A block on twins under a narrower limit leaves twins, under the limit before it. -/
lemma parallel_within (refuse : BufferError → ε) (stop : Nat) {block : Read ε α}
    (h : Parallel (Twin extent) block) :
    Parallel (Twin extent) (within refuse stop block) := by
  rintro _ _ @⟨bytes₁, bytes₂, pos, limit, hlimit, hbytes⟩
  unfold within
  dsimp only
  split
  · exact .error _ (.intro pos limit hlimit hbytes)
  · split
    · exact .error _ (.intro pos limit hlimit hbytes)
    · have hblock := h _ _ (.intro pos stop (by omega) hbytes)
      generalize block ⟨bytes₁, pos, stop⟩ = result₁, block ⟨bytes₂, pos, stop⟩ = result₂
        at hblock ⊢
      cases hblock with
      | ok a hr =>
        cases hr with
        | intro pos stop hstop hbytes => exact .ok a (.intro pos limit hlimit hbytes)
      | error e hr =>
        cases hr with
        | intro pos stop hstop hbytes => exact .error e (.intro pos limit hlimit hbytes)

/-- A framed block goes the same way in two buffers that agree if the block does. -/
lemma parallel_framed (refuse : BufferError → ε) (size : Nat) {block : Read ε α}
    (h : Parallel (Twin extent) block) :
    Parallel (Twin extent) (framed refuse size block) :=
  parallel_position.bind fun _ => (parallel_within refuse _ h).bind fun a =>
    (parallel_mapError refuse (parallel_seek _)).bind fun _ => .pure a

/-- Steps that are put together from takes run alike on twins. -/
theorem Assembled.parallel {step : Read ε α} (h : Assembled step) (extent : Nat) :
    Parallel (Twin extent) step := by
  induction h with
  | pure a => exact Parallel.pure a
  | throw e => exact Parallel.throw e
  | takePadded hw => exact parallel_takePadded hw
  | bind _ _ ih ihnext => exact Parallel.bind ih ihnext
  | mapError f _ ih => exact parallel_mapError f ih
  | framed refuse size _ ih => exact parallel_framed refuse size ih

end Read

end TaggedParcel
