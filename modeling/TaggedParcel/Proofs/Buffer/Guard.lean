import TaggedParcel.Proofs.Buffer.Emission

set_option relaxedAutoImplicit false
set_option autoImplicit false

/-!
# Steps that succeed under a condition

Where nesting is bounded, a step succeeds exactly if there is room for what it writes or reads,
and otherwise it fails for that reason and no other. Such steps compose: their conditions all
have to hold, and the first one that does not hold ends the whole.

## Main definitions

* `Write.Guarded` — a step that appends certain bytes exactly if a condition holds.
* `Read.Guarded` — a step that reads an answer from certain bytes exactly if a condition holds.

## Main results

* `Write.Guarded.bind`, `Write.Guarded.each` — guarded steps on a writer compose.
* `Read.Guarded.bind`, `Read.Guarded.times`, `Read.Guarded.framed` — guarded steps on a reader
  compose.
-/

namespace TaggedParcel

variable {ε α β : Type}

/-- A step that appends certain bytes if a condition holds, and else fails for a given reason. -/
structure Write.Guarded (e : ε) (p : Prop) (write : Write ε Unit) (bs : List UInt8) : Prop where
  /-- Under the condition the step appends the bytes. -/
  emits : p → Emits write (.ok bs)
  /-- Without it the step fails. -/
  fails : ¬ p → Emits write (.error e)

namespace Write.Guarded

variable {e : ε} {p q : Prop} {write write' : Write ε Unit} {bs bs' : List UInt8}

/-- A step without a condition. -/
lemma of_emits (h : Emits write (.ok bs)) (hp : p) : Guarded e p write bs :=
  ⟨fun _ => h, fun hnot => absurd hp hnot⟩

/-- A condition may be put in other words. -/
lemma congr (h : Guarded e p write bs) (hpq : p ↔ q) : Guarded e q write bs :=
  ⟨fun hq => h.emits (hpq.mpr hq), fun hq => h.fails fun hp => hq (hpq.mp hp)⟩

/-- Two steps write their bytes exactly if both conditions hold. -/
lemma bind (h : Guarded e p write bs) (h' : Guarded e q write' bs') :
    Guarded e (p ∧ q) (write >>= fun _ => write') (bs ++ bs') := by
  refine ⟨fun hboth => (h.emits hboth.1).bind (h'.emits hboth.2), fun hnot => ?_⟩
  by_cases hp : p
  · exact (h.emits hp).bind (h'.fails fun hq => hnot ⟨hp, hq⟩)
  · exact (h.fails hp).bind_error _

/-- What is written first has no condition. -/
lemma behind (h : Emits write (.ok bs)) (h' : Guarded e p write' bs') :
    Guarded e p (write >>= fun _ => write') (bs ++ bs') :=
  (bind (of_emits h trivial) h').congr (iff_of_eq (true_and p))

/-- The items of a list are written if the conditions of all of them hold. -/
lemma each {write : α → Write ε Unit} {fits : α → Prop} {encode : α → List UInt8}
    {items : List α} (h : ∀ a ∈ items, Guarded e (fits a) (write a) (encode a)) :
    Guarded e (∀ a ∈ items, fits a) (each write items) (items.flatMap encode) := by
  induction items with
  | nil => exact of_emits Emits.pure fun a ha => absurd ha List.not_mem_nil
  | cons a rest ih =>
    rw [each_cons, List.flatMap_cons]
    refine (bind (h a List.mem_cons_self)
      (ih fun b hb => h b (List.mem_cons_of_mem a hb))).congr ?_
    exact List.forall_mem_cons.symm

end Write.Guarded

/-- A step that reads an answer from certain bytes, whatever follows them, if a condition holds,
and else fails for a given reason. -/
structure Read.Guarded (e : ε) (p : Prop) (read : Read ε α) (bs : List UInt8) (a : α) : Prop where
  /-- Under the condition the step reads the answer from the bytes. -/
  parses : p → Parses read bs a
  /-- Without it the step fails. -/
  fails : ¬ p → ∀ r : Reader, r.Sound → bs <+: r.ahead → ∃ r', read r = .error e r'

namespace Read.Guarded

variable {e : ε} {p q : Prop} {read : Read ε α} {next : α → Read ε β} {bs bs' : List UInt8}
  {a : α} {b : β}

/-- A step without a condition. -/
lemma of_parses (h : Parses read bs a) (hp : p) : Guarded e p read bs a :=
  ⟨fun _ => h, fun hnot => absurd hp hnot⟩

/-- A condition may be put in other words. -/
lemma congr (h : Guarded e p read bs a) (hpq : p ↔ q) : Guarded e q read bs a :=
  ⟨fun hq => h.parses (hpq.mpr hq), fun hq => h.fails fun hp => hq (hpq.mp hp)⟩

/-- Two steps read their bytes exactly if both conditions hold. -/
lemma bind (h : Guarded e p read bs a) (h' : Guarded e q (next a) bs' b) :
    Guarded e (p ∧ q) (read >>= next) (bs ++ bs') b := by
  refine ⟨fun hboth => (h.parses hboth.1).bind (h'.parses hboth.2), fun hnot r hr hboth => ?_⟩
  obtain ⟨hfront, hbehind⟩ := Reader.prefix_advance hboth
  rw [bind_apply]
  by_cases hp : p
  · rw [h.parses hp r hr hfront]
    exact h'.fails (fun hq => hnot ⟨hp, hq⟩) _ (hr.advance hfront.length_le) hbehind
  · obtain ⟨r', hrun⟩ := h.fails hp r hr hfront
    rw [hrun]
    exact ⟨r', rfl⟩

/-- What is read first has no condition. -/
lemma behind (h : Parses read bs a) (h' : Guarded e p (next a) bs' b) :
    Guarded e p (read >>= next) (bs ++ bs') b :=
  (bind (of_parses h trivial) h').congr (iff_of_eq (true_and p))

/-- What is read first takes no bytes. -/
lemma before (h : Parses read [] a) (h' : Guarded e p (next a) bs b) :
    Guarded e p (read >>= next) bs b :=
  behind h h'

/-- An answer that is changed after it was read. -/
lemma map (f : α → β) (h : Guarded e p read bs a) :
    Guarded e p (read >>= fun a => Pure.pure (f a)) bs (f a) := by
  have hpure : Guarded e True (Pure.pure (f a) : Read ε β) [] (f a) :=
    of_parses (Parses.pure (f a)) trivial
  have hmap : Guarded e (p ∧ True) (read >>= fun a => Pure.pure (f a)) (bs ++ []) (f a) :=
    bind h hpure
  rw [List.append_nil] at hmap
  exact hmap.congr (iff_of_eq (and_true p))

/-- The items of a list are read if the conditions of all of them hold. -/
lemma times {fits : α → Prop} {encode : α → List UInt8} {items : List α}
    (h : ∀ a ∈ items, Guarded e (fits a) read (encode a) a) :
    Guarded e (∀ a ∈ items, fits a) (times items.length read) (items.flatMap encode) items := by
  have hgo : ∀ done, Guarded e (∀ a ∈ items, fits a) (Read.times.go read items.length done)
      (items.flatMap encode) (done.reverse ++ items) := by
    induction items with
    | nil =>
      intro done
      rw [List.append_nil]
      exact of_parses (Parses.pure done.reverse) fun a ha => absurd ha List.not_mem_nil
    | cons a rest ih =>
      intro done
      have hrest := ih (fun b hb => h b (List.mem_cons_of_mem a hb)) (a :: done)
      rw [List.reverse_cons, List.append_assoc, List.singleton_append] at hrest
      rw [List.length_cons, Read.times_go_succ, List.flatMap_cons]
      exact (bind (h a List.mem_cons_self) hrest).congr List.forall_mem_cons.symm
  exact hgo []

/-- A block that reads the whole of its frame. -/
lemma framed (refuse : BufferError → ε) (h : Guarded e p read bs a) :
    Guarded e p (framed refuse bs.length read) bs a := by
  refine ⟨fun hp => (h.parses hp).framed refuse, fun hp r hr hfront => ?_⟩
  have hlength := hfront.length_le
  obtain ⟨r', hrun⟩ :=
    h.fails hp (r.narrow bs.length) (hr.narrow hlength) (Reader.prefix_narrow hr hfront)
  have hwithin := within_narrow refuse read hr hlength
  rw [hrun] at hwithin
  refine ⟨{ r' with limit := r.limit }, ?_⟩
  show (within refuse (r.pos + bs.length) read >>= fun a =>
    Read.mapError refuse (seek (r.pos + bs.length)) >>= fun _ => Pure.pure a) r = _
  rw [bind_apply, hwithin]

end Read.Guarded

end TaggedParcel
