import TaggedParcel.Proofs.Frame.Twin

set_option relaxedAutoImplicit false
set_option autoImplicit false

/-!
# Steps that stay inside the limit

Whatever a step on a reader does, and whether it answers or fails, the buffer and the limit are
the same behind it, and the position is not behind the limit. A step may move backwards. A block
runs under a limit of its own, and behind it the limit before it is in force again.

## Main definitions

* `Read.outcome` — what a step answers, or why it fails, and the reader that it leaves.
* `Reader.Stays`, `Read.Steady` — readers that stay under their limit, and steps that keep them
  there.
* `Reader.entry?` — the reader that a block starts with, unless the block is refused.

## Main results

* `Read.Assembled.steady` — steps that are put together from takes are steady.
* `Read.Steady.fieldHeader`, `Read.Steady.objectHeader`, `Read.Steady.skipField` — and so are
  those on headers.
* `Read.outcome_within_entered`, `Read.outcome_within_refused` — what a block leaves.
* `Read.outcome_within_twin` — blocks in two buffers with the same bytes up to their end.
-/

namespace TaggedParcel

/-! ## Steps that leave the limit alone -/

/-- A reader of the same buffer and under the same limit, which does not lie before the
position. -/
structure Reader.Stays (r r' : Reader) : Prop where
  /-- The buffer is the same. -/
  bytes_eq : r'.bytes = r.bytes
  /-- The limit is the same. -/
  limit_eq : r'.limit = r.limit
  /-- The position is inside the limit. -/
  pos_le : r'.pos ≤ r'.limit

namespace Reader.Stays

variable {r r' r'' : Reader}

/-- A reader stays where it is. -/
lemma refl (h : r.pos ≤ r.limit) : r.Stays r :=
  ⟨rfl, rfl, h⟩

/-- Staying twice is staying. -/
lemma trans (h : r.Stays r') (h' : r'.Stays r'') : r.Stays r'' :=
  ⟨h'.bytes_eq.trans h.bytes_eq, h'.limit_eq.trans h.limit_eq, h'.pos_le⟩

/-- A reader that stays keeps the limit inside of the buffer. -/
lemma limit_le (h : r.Stays r') (hlimit : r.limit ≤ r.bytes.size) :
    r'.limit ≤ r'.bytes.size := by
  rw [h.limit_eq, h.bytes_eq]
  exact hlimit

/-- What stays under a lower limit stays under the limit before it, once that is put back. -/
lemma restore {stop : Nat} (h : (r.under stop).Stays r') (hstop : stop ≤ r.limit) :
    r.Stays (r'.under r.limit) where
  bytes_eq := h.bytes_eq
  limit_eq := rfl
  pos_le := by
    have hpos := h.pos_le
    have hlimit : r'.limit = stop := h.limit_eq
    show r'.pos ≤ r.limit
    omega

end Reader.Stays

namespace Read

variable {ε ε' α β : Type}

/-- What a step answers, or why it fails, and the reader that it leaves. -/
def outcome (step : Read ε α) (r : Reader) : Except ε α × Reader :=
  match step r with
  | .ok a r' => (.ok a, r')
  | .error e r' => (.error e, r')

/-- Steps after which a reader stays where it may be, whether they answer or fail. -/
def Steady (step : Read ε α) : Prop :=
  ∀ r : Reader, r.pos ≤ r.limit → r.Stays (step.outcome r).2

namespace Steady

/-- Answering at once is steady. -/
lemma pure (a : α) : Steady (Pure.pure a : Read ε α) :=
  fun _ h => .refl h

/-- Failing at once is steady. -/
lemma throw (e : ε) : Steady (MonadExcept.throw e : Read ε α) :=
  fun _ h => .refl h

/-- Two steady steps are steady one after another. -/
lemma bind {step : Read ε α} {next : α → Read ε β} (h : Steady step)
    (hnext : ∀ a, Steady (next a)) : Steady (step >>= next) := by
  intro r hr
  have hstep := h r hr
  unfold outcome at hstep ⊢
  rw [bind_apply]
  generalize step r = result at hstep ⊢
  cases result with
  | ok a r' => exact hstep.trans (hnext a r' hstep.pos_le)
  | error e r' => exact hstep

/-- Renaming failures keeps a step steady. -/
lemma mapError {step : Read ε α} (f : ε → ε') (h : Steady step) :
    Steady (Read.mapError f step) := by
  intro r hr
  have hstep := h r hr
  unfold outcome at hstep ⊢
  unfold Read.mapError
  generalize step r = result at hstep ⊢
  cases result <;> exact hstep

/-- Asking for the position is steady. -/
lemma position : Steady (position : Read ε Nat) :=
  fun _ h => .refl h

/-- Asking for the limit is steady. -/
lemma limit : Steady (limit : Read ε Nat) :=
  fun _ h => .refl h

/-- Moving to a position is steady, because no position behind the limit is accepted. -/
lemma seek (target : Nat) : Steady (seek target) := by
  intro r hr
  unfold outcome Read.seek
  by_cases h : target > r.limit
  · rw [if_pos h]
    exact .refl hr
  · rw [if_neg h]
    exact ⟨rfl, rfl, Nat.le_of_not_lt h⟩

/-- A padded payload is steady. -/
lemma takePadded (wanted count : Nat) : Steady (takePadded wanted count) := by
  intro r hr
  unfold outcome Read.takePadded
  by_cases h : count > r.remaining
  · rw [if_pos h]
    exact .refl hr
  · rw [if_neg h]
    unfold Reader.remaining at h
    exact ⟨rfl, rfl, show r.pos + count ≤ r.limit by omega⟩

/-- A block under a limit is steady if the block is. -/
lemma within (refuse : BufferError → ε) (stop : Nat) {block : Read ε α} (h : Steady block) :
    Steady (within refuse stop block) := by
  intro r hr
  unfold outcome Read.within
  by_cases hlimit : stop > r.limit
  · rw [if_pos hlimit]
    exact .refl hr
  · rw [if_neg hlimit]
    by_cases hpos : stop < r.pos
    · rw [if_pos hpos]
      exact .refl hr
    · rw [if_neg hpos]
      have hblock := h (r.under stop) (Nat.le_of_not_lt hpos)
      unfold outcome Reader.under at hblock
      generalize block { r with limit := stop } = result at hblock ⊢
      cases result <;> exact hblock.restore (Nat.le_of_not_lt hlimit)

end Steady

/-- Bytes that are passed over are bytes that are taken, of which none are wanted. -/
lemma Assembled.skip (count : Nat) : Assembled (skip count) := by
  have htake : Read.skip count = Read.takePadded 0 count >>= fun _ => Pure.pure () := by
    funext r
    rw [bind_apply]
    unfold Read.skip Read.takePadded
    split <;> rfl
  rw [htake]
  exact .bind (.takePadded (Nat.zero_le count)) fun _ => .pure ()

/-- Steps that are put together from takes are steady. -/
lemma Assembled.steady {step : Read ε α} (h : Assembled step) : Steady step := by
  induction h with
  | pure a => exact .pure a
  | throw e => exact .throw e
  | takePadded _ => exact .takePadded _ _
  | bind _ _ ih ihnext => exact .bind ih ihnext
  | mapError f _ ih => exact .mapError f ih
  | framed refuse size _ ih =>
    exact .bind .position fun _ => .bind (.within refuse _ ih) fun _ =>
      .bind (.mapError refuse (.seek _)) fun _ => .pure _

namespace Steady

/-- A word of a header is steady. -/
lemma headerPart : Steady headerPart := by
  intro r hr
  have hword := Assembled.u32.steady r hr
  unfold outcome at hword ⊢
  unfold Read.headerPart
  generalize u32 r = result at hword ⊢
  cases result with
  | ok word r' => exact hword
  | error e r' => cases e <;> exact hword

/-- A field header is steady. -/
lemma fieldHeader : Steady fieldHeader := by
  refine .bind .headerPart fun word => ?_
  dsimp only
  split
  · exact .bind .headerPart fun size => .bind .position fun _ => .pure _
  · exact .bind .position fun _ => .pure _

/-- Checking the end of a field is steady. -/
lemma boundedStop (header : FieldHeader) : Steady (boundedStop header) := by
  refine .bind .limit fun limit => ?_
  split
  · exact .throw _
  · exact .pure _

/-- An object header is steady. -/
lemma objectHeader : Steady objectHeader := by
  refine .bind .fieldHeader fun header => ?_
  split
  · exact .throw _
  · exact .boundedStop header

/-- Passing over a field is steady. -/
lemma skipField (header : FieldHeader) : Steady (skipField header) :=
  .bind (.boundedStop header) fun stop => .mapError _ (.seek stop)

end Steady

/-! ## Steps on twins -/

variable {extent : Nat} {r r₁ r₂ : Reader}

/-- Steps that run alike on twins answer the same and leave twins. -/
lemma outcome_twin {step : Read ε α} (h : Parallel (Reader.Twin extent) step)
    (hr : Reader.Twin extent r₁ r₂) :
    (step.outcome r₁).1 = (step.outcome r₂).1 ∧
      Reader.Twin extent (step.outcome r₁).2 (step.outcome r₂).2 := by
  have hstep := h r₁ r₂ hr
  unfold outcome
  generalize step r₁ = result₁, step r₂ = result₂ at hstep ⊢
  cases hstep with
  | ok a hr => exact ⟨rfl, hr⟩
  | error e hr => exact ⟨rfl, hr⟩

/-- Passing over a field goes the same way in two buffers that agree. -/
lemma parallel_skipField (header : FieldHeader) :
    Parallel (Reader.Twin extent) (skipField header) :=
  (parallel_boundedStop header).bind fun stop => parallel_mapError _ (parallel_seek stop)

end Read

/-! ## Blocks -/

/-- The reader that a block up to `stop` starts with, unless the block is refused. -/
def Reader.entry? (r : Reader) (stop : Nat) : Option Reader :=
  ((Read.within FrameError.buffer stop get).outcome r).1.toOption

section Block

variable {β : Type} {stop : Nat} {r r₁ r₂ inner : Reader}

/-- A block is refused if its end lies behind the limit or before the position. -/
lemma Reader.entry?_eq (r : Reader) (stop : Nat) :
    r.entry? stop = if r.pos ≤ stop ∧ stop ≤ r.limit then some (r.under stop) else none := by
  unfold entry? Read.outcome Read.within
  by_cases hlimit : stop > r.limit
  · rw [if_pos hlimit, if_neg (by omega)]
    rfl
  · rw [if_neg hlimit]
    by_cases hpos : stop < r.pos
    · rw [if_pos hpos, if_neg (by omega)]
      rfl
    · rw [if_neg hpos, if_pos (by omega)]
      rfl

/-- A block that is entered runs under its limit, which lies between position and limit. -/
lemma Reader.entry?_some (h : r.entry? stop = some inner) :
    inner = r.under stop ∧ r.pos ≤ stop ∧ stop ≤ r.limit := by
  rw [entry?_eq] at h
  split at h
  · rename_i hadmitted
    cases h
    exact ⟨rfl, hadmitted⟩
  · cases h

/-- A block that starts leaves what its steps leave, under the limit before it. -/
lemma Read.outcome_within_entered (block : Read FrameError β) (hpos : r.pos ≤ stop)
    (hstop : stop ≤ r.limit) :
    (within FrameError.buffer stop block).outcome r =
      ((block.outcome (r.under stop)).1, (block.outcome (r.under stop)).2.under r.limit) := by
  unfold outcome within Reader.under
  rw [if_neg (by omega), if_neg (by omega)]
  generalize block { r with limit := stop } = result
  cases result <;> rfl

/-- A block that is refused leaves the reader as it is. -/
lemma Read.outcome_within_refused (block : Read FrameError β) (h : r.entry? stop = none) :
    ∃ e, (within FrameError.buffer stop block).outcome r = (.error e, r) := by
  rw [Reader.entry?_eq] at h
  unfold outcome within
  by_cases hlimit : stop > r.limit
  · rw [if_pos hlimit]
    exact ⟨_, rfl⟩
  · rw [if_neg hlimit]
    by_cases hpos : stop < r.pos
    · rw [if_pos hpos]
      exact ⟨_, rfl⟩
    · rw [if_pos (by omega)] at h
      cases h

/-- Blocks at the same position of buffers with the same bytes up to their end have the same
outcome, if the limits are the same up to that end. -/
lemma Read.outcome_within_twin {block : Read FrameError β}
    (h : Parallel (Reader.Twin stop) block) {bytes₁ bytes₂ : Array UInt8}
    (hbytes : bytes₁.extract 0 stop = bytes₂.extract 0 stop) (pos : Nat) {limit₁ limit₂ : Nat}
    (hlimit : min stop limit₁ = min stop limit₂) :
    ((within FrameError.buffer stop block).outcome ⟨bytes₁, pos, limit₁⟩).1 =
        ((within FrameError.buffer stop block).outcome ⟨bytes₂, pos, limit₂⟩).1 ∧
      ((within FrameError.buffer stop block).outcome ⟨bytes₁, pos, limit₁⟩).2.pos =
        ((within FrameError.buffer stop block).outcome ⟨bytes₂, pos, limit₂⟩).2.pos := by
  by_cases hreach : stop ≤ limit₁
  · have hstop₂ : stop ≤ limit₂ := by omega
    by_cases hpos : pos ≤ stop
    · rw [outcome_within_entered block hpos hreach, outcome_within_entered block hpos hstop₂]
      obtain ⟨hanswer, htwin⟩ := outcome_twin h (.intro pos stop (Nat.le_refl stop) hbytes)
      exact ⟨hanswer, show (block.outcome ⟨bytes₁, pos, stop⟩).2.pos = _ from htwin.pos_eq⟩
    · unfold outcome within
      dsimp only
      rw [if_neg (by omega), if_pos (by omega), if_neg (by omega), if_pos (by omega)]
      exact ⟨rfl, rfl⟩
  · -- both are refused, and the refusal names the limit
    obtain rfl : limit₁ = limit₂ := by omega
    unfold outcome within
    dsimp only
    rw [if_pos (by omega), if_pos (by omega)]
    exact ⟨rfl, rfl⟩

end Block

end TaggedParcel
