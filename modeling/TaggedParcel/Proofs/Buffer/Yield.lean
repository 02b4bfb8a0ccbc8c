import TaggedParcel.Proofs.Buffer.Locality

set_option relaxedAutoImplicit false
set_option autoImplicit false

/-!
# What a step answers for the bytes that it consumes

Counts are read from the input before what they count, so what bounds the size of an answer is the
number of bytes that were consumed for it. Here answers are judged together with that number. The
judgement goes through sequences and blocks of reads, and through loops with an invariant.

## Main definitions

* `Read.Yields` — steps that, where they answer, move forward, and give an answer that is wanted for
  the bytes that they consumed.

## Main results

* `Read.Local.yields` — steps that move forward yield something.
* `Read.Yields.bind`, `Read.Yields.framed` — one step after another, and a block of known size.
* `Read.Yields.times` — the invariant of a loop.
-/

namespace TaggedParcel.Read

variable {ε ε' α β : Type}

/-- Steps that, where they answer, consumed some of the bytes ahead, and whose answers are wanted
for so many bytes. -/
def Yields (step : Read ε α) (wanted : α → Nat → Prop) : Prop :=
  ∀ ⦃r : Reader⦄, r.Sound → ∀ ⦃a : α⦄ ⦃r' : Reader⦄, step r = .ok a r' →
    ∃ n ≤ r.ahead.length, r' = r.advance n ∧ wanted a n

/-- A step that moves forward yields something. -/
lemma Local.yields {step : Read ε α} (h : Local step) : Yields step fun _ _ => True := by
  intro r hr a r' hstep
  rcases h.moves hr with ⟨b, n, hn, hb⟩ | ⟨e, n, -, he⟩
  · rw [hb] at hstep
    cases hstep
    exact ⟨n, hn, rfl, trivial⟩
  · rw [he] at hstep
    cases hstep

namespace Yields

variable {step : Read ε α} {wanted : α → Nat → Prop}

/-- What a step yields may be weakened. -/
lemma imp {weaker : α → Nat → Prop} (h : Yields step wanted)
    (himp : ∀ a n, wanted a n → weaker a n) : Yields step weaker := by
  intro r hr a r' hstep
  obtain ⟨n, hn, rfl, ha⟩ := h hr hstep
  exact ⟨n, hn, rfl, himp a n ha⟩

/-- An answer at once yields what is true of it where no bytes are taken. -/
lemma pure {a : α} (h : wanted a 0) : Yields (Pure.pure a : Read ε α) wanted := by
  rintro r - b r' hstep
  cases hstep
  exact ⟨0, Nat.zero_le _, rfl, h⟩

/-- A failure yields anything. -/
lemma throw (e : ε) : Yields (MonadExcept.throw e : Read ε α) wanted := by
  rintro r - b r' hstep
  cases hstep

/-- The bytes of two steps add up. -/
lemma bind {next : α → Read ε β} {final : β → Nat → Prop} (h : Yields step wanted)
    (hnext : ∀ a m, wanted a m → Yields (next a) fun b n => final b (m + n)) :
    Yields (step >>= next) final := by
  intro r hr b r' hrun
  obtain ⟨a, r₁, hstep, hrest⟩ := bind_ok hrun
  obtain ⟨m, hm, rfl, ha⟩ := h hr hstep
  obtain ⟨n, hn, rfl, hb⟩ := hnext a m ha (hr.advance hm) hrest
  rw [Reader.ahead_advance, List.length_drop] at hn
  exact ⟨m + n, by omega, Reader.advance_advance m n, hb⟩

/-- An answer that is turned into another one. -/
lemma map (h : Yields step wanted) {f : α → β} {final : β → Nat → Prop}
    (hfinal : ∀ a n, wanted a n → final (f a) n) :
    Yields (step >>= fun a => Pure.pure (f a)) final :=
  h.bind fun a n ha => pure (hfinal a n ha)

/-- Renaming failures does not change what a step yields. -/
lemma mapError (f : ε → ε') (h : Yields step wanted) : Yields (mapError f step) wanted := by
  intro r hr a r' hrun
  unfold Read.mapError at hrun
  cases hstep : step r with
  | ok b r₁ =>
    rw [hstep] at hrun
    cases hrun
    exact h hr hstep
  | error e r₁ =>
    rw [hstep] at hrun
    cases hrun

/-- A block of known size consumes all of it, whatever the reads in it do. -/
lemma framed (refuse : BufferError → ε) (size : Nat) (hlocal : Local step)
    (h : Yields step wanted) :
    Yields (framed refuse size step) fun a n => n = size ∧ ∃ m ≤ size, wanted a m := by
  intro r hr a r' hrun
  by_cases hsize : size ≤ r.ahead.length
  · rw [framed_of_le refuse hlocal hr hsize] at hrun
    cases hstep : step (r.narrow size) with
    | ok b r₁ =>
      rw [hstep] at hrun
      cases hrun
      obtain ⟨m, hm, -, hb⟩ := h (hr.narrow hsize) hstep
      rw [Reader.ahead_narrow hr hsize, List.length_take] at hm
      exact ⟨size, hsize, rfl, rfl, m, by omega, hb⟩
    | error e r₁ =>
      rw [hstep] at hrun
      cases hrun
  · rw [framed_of_lt refuse step hr (by omega)] at hrun
    cases hrun

/-- What holds of no answers for no bytes, and goes on to hold with every answer of a step, holds
of the answers of a loop. -/
lemma times (invariant : List α → Nat → Prop) (hnil : invariant [] 0) (h : Yields step wanted)
    (happend : ∀ done m a n, invariant done m → wanted a n → invariant (done ++ [a]) (m + n))
    (count : Nat) :
    Yields (times count step) fun items n => items.length = count ∧ invariant items n := by
  have hgo : ∀ count done m, invariant done.reverse m →
      Yields (Read.times.go step count done) fun items n =>
        items.length = done.length + count ∧ invariant items (m + n) := by
    intro count
    induction count with
    | zero =>
      intro done m hdone
      exact pure ⟨List.length_reverse, hdone⟩
    | succ count ih =>
      intro done m hdone
      rw [times_go_succ]
      refine h.bind fun a n ha => (ih (a :: done) (m + n) ?_).imp fun items k hitems => ?_
      · rw [List.reverse_cons]
        exact happend _ _ _ _ hdone ha
      · rw [List.length_cons, Nat.add_assoc m n k] at hitems
        exact ⟨by omega, hitems.2⟩
  exact (hgo count [] 0 hnil).imp fun items n hitems => by simpa using hitems

/-! ## Words -/

/-- A padded payload takes as many bytes as it is padded to. -/
lemma takePadded {count size : Nat} (hcount : count ≤ size) :
    Yields (takePadded count size) fun _ n => n = size := by
  intro r hr a r' hrun
  by_cases hsize : size ≤ r.ahead.length
  · rw [takePadded_of_le hr hcount hsize] at hrun
    cases hrun
    exact ⟨size, hsize, rfl, rfl⟩
  · rw [takePadded_of_lt hr (by omega)] at hrun
    cases hrun

/-- A 32-bit word takes four bytes. -/
lemma u32 : Yields u32 fun _ n => n = 4 :=
  ((takePadded (Nat.le_refl 4)).map fun _ _ hn => hn).map fun _ _ hn => hn

/-- A 64-bit word takes eight bytes. -/
lemma u64 : Yields u64 fun _ n => n = 8 :=
  ((takePadded (Nat.le_refl 8)).map fun _ _ hn => hn).map fun _ _ hn => hn

/-- A signed 32-bit word takes four bytes. -/
lemma i32 : Yields i32 fun _ n => n = 4 :=
  u32.map fun _ _ hn => hn

/-- A signed 64-bit word takes eight bytes. -/
lemma i64 : Yields i64 fun _ n => n = 8 :=
  u64.map fun _ _ hn => hn

/-- A truth value takes four bytes. -/
lemma bool : Yields bool fun _ n => n = 4 :=
  i32.map fun _ _ hn => hn

/-- A single-precision number takes four bytes. -/
lemma float : Yields float fun _ n => n = 4 :=
  u32.map fun _ _ hn => hn

/-- A double-precision number takes eight bytes. -/
lemma double : Yields double fun _ n => n = 8 :=
  u64.map fun _ _ hn => hn

/-- A length takes a word, whatever it says. -/
lemma length : Yields length fun _ n => n = 4 := by
  refine i32.bind fun word m hm => ?_
  subst hm
  split
  · exact pure rfl
  · split
    · exact throw _
    · exact pure rfl

/-- A text takes at least the word of its length. -/
lemma string16 : Yields string16 fun _ n => 4 ≤ n := by
  refine length.bind fun count m hm => ?_
  subst hm
  cases count with
  | none => exact pure (Nat.le_refl 4)
  | some count =>
    have hpad := le_padTo4 (2 * (count + 1))
    refine (takePadded (by omega)).bind fun bytes n _ => ?_
    split
    · exact pure (by omega)
    · exact throw _

end Yields

end TaggedParcel.Read
