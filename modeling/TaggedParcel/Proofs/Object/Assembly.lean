import TaggedParcel.Object.Decode
import TaggedParcel.Proofs.Value.Locality

set_option relaxedAutoImplicit false
set_option autoImplicit false

/-!
# How payloads with objects are assembled

A payload with objects in it is read by steps on its bytes and by runs of a reader for the
objects, one after another and under narrower limits. Whatever is assembled in that way inherits
what the reader of the objects does: that it adds to the report and never looks at it, and that
it is local. What it reports is what the objects report.

## Main definitions

* `Decode.Assembled` — computations assembled from steps and runs of an object reader.
* `Decode.Blind` — computations that only add to the report.
* `Decode.Local` — computations with matching results wherever the bytes ahead are the same.
* `Decode.Told` — the reports of objects that lie one behind the other.

## Main results

* `Decode.Assembled.blind`, `Decode.Assembled.local` — what is inherited.
* `Decode.Assembled.told` — the report of a run is made of the reports of the objects.
* `Decode.Assembled.blames` — a fatal failure is the failure of an object.
-/

namespace TaggedParcel.Decode

variable {α β : Type}

/-- A block that may read no more than `size` bytes, and behind them reading goes on. -/
def framed (size : Nat) (block : Decode α) : Decode α := do
  let start ← position
  let a ← within (start + size) block
  seek (start + size)
  return a

/-- Computations assembled from steps and runs of a reader for objects of certain types. -/
inductive Assembled (objects : ObjectReader) (types : String → Prop) :
    {α : Type} → Decode α → Prop where
  /-- An answer. -/
  | pure {α : Type} (a : α) : Assembled objects types (Pure.pure a : Decode α)
  /-- A step that is itself assembled. -/
  | payload {α : Type} {step : Read FieldError α} (h : Read.Assembled step) :
    Assembled objects types (payload step)
  /-- An object. -/
  | object {type : String} (h : types type) : Assembled objects types (objects type)
  /-- One computation after another. -/
  | bind {α β : Type} {m : Decode α} {next : α → Decode β} (h : Assembled objects types m)
    (hnext : ∀ a, Assembled objects types (next a)) : Assembled objects types (m >>= next)
  /-- A computation under a narrower limit. -/
  | framed {α : Type} (size : Nat) {block : Decode α} (h : Assembled objects types block) :
    Assembled objects types (framed size block)

/-- Computations that add to the report without looking at it. -/
def Blind (m : Decode α) : Prop :=
  ∀ (r : Reader) (events : List Diagnostic), m ⟨r, events⟩ =
    match m ⟨r, []⟩ with
    | .ok a s => .ok a ⟨s.reader, s.events ++ events⟩
    | .error e s => .error e ⟨s.reader, s.events ++ events⟩

/-- Results of two runs, one from each reader, that answer the same after the same number of
bytes, or fail both fatally or both not. -/
inductive Matched (r₁ r₂ : Reader) : EStateM.Result CodecError DecodeState α →
    EStateM.Result CodecError DecodeState α → Prop where
  /-- Both runs answer. -/
  | ok (a : α) (n : Nat) (hn : n ≤ r₁.ahead.length) (events₁ events₂ : List Diagnostic) :
    Matched r₁ r₂ (.ok a ⟨r₁.advance n, events₁⟩) (.ok a ⟨r₂.advance n, events₂⟩)
  /-- Both runs fail. -/
  | error (e₁ e₂ : CodecError) (h : e₁.isFatal = e₂.isFatal) (n₁ n₂ : Nat)
    (hn₁ : n₁ ≤ r₁.ahead.length) (hn₂ : n₂ ≤ r₂.ahead.length)
    (events₁ events₂ : List Diagnostic) :
    Matched r₁ r₂ (.error e₁ ⟨r₁.advance n₁, events₁⟩) (.error e₂ ⟨r₂.advance n₂, events₂⟩)

/-- Computations whose results match wherever the bytes ahead are the same. -/
def Local (m : Decode α) : Prop :=
  ∀ (r₁ r₂ : Reader) (events₁ events₂ : List Diagnostic), r₁.Sound → r₂.Sound →
    r₁.ahead = r₂.ahead → Matched r₁ r₂ (m ⟨r₁, events₁⟩) (m ⟨r₂, events₂⟩)

/-- The state in which a run from a reader ends. -/
def final (m : Decode α) (r : Reader) : DecodeState :=
  match m ⟨r, []⟩ with
  | .ok _ s => s
  | .error _ s => s

/-- What a run from a reader reports. -/
def report (m : Decode α) (r : Reader) : Report :=
  (final m r).events.reverse

/-- The reports of objects that are read one behind the other, from one position to another,
where no limit lies behind `stop`. -/
inductive Told (objects : ObjectReader) (types : String → Prop) (bytes : Array UInt8)
    (stop : Nat) : Nat → Nat → Report → Prop where
  /-- No object is left. -/
  | nil {pos finish : Nat} (h : pos ≤ finish) : Told objects types bytes stop pos finish []
  /-- An object is read, and others behind it. -/
  | cons {pos finish : Nat} {type : String} {r : Reader} {rest : Report} (htype : types type)
    (hr : r.Sound) (hbytes : r.bytes = bytes) (hpos : pos ≤ r.pos) (hstop : r.limit ≤ stop)
    (hrest : Told objects types bytes stop (final (objects type) r).reader.pos finish rest) :
    Told objects types bytes stop pos finish (report (objects type) r ++ rest)

variable {objects : ObjectReader} {types : String → Prop}

/-- Repeating a computation once more. -/
lemma times_go_succ (m : Decode α) (count : Nat) (done : List α) :
    times.go m (count + 1) done = m >>= fun a => times.go m count (a :: done) := by
  funext s
  rw [bind_apply]
  cases hrun : m s with
  | ok a s' => simp only [times.go, hrun]
  | error e s' => simp only [times.go, hrun]

namespace Assembled

/-- Failing in a field is assembled. -/
lemma throw (e : FieldError) :
    Assembled objects types (MonadExcept.throw (.field e) : Decode α) :=
  payload (Read.Assembled.throw e)

/-- Repeating an assembled step is assembled. -/
lemma times {m : Decode α} (h : Assembled objects types m) (count : Nat) :
    Assembled objects types (times count m) := by
  have hgo : ∀ count done, Assembled objects types (Decode.times.go m count done) := by
    intro count
    induction count with
    | zero => exact fun done => pure done.reverse
    | succ count ih =>
      intro done
      rw [times_go_succ]
      exact bind h fun a => ih (a :: done)
  exact hgo count []

end Assembled

/-! ## Blindness -/

namespace Blind

/-- Answering at once is blind. -/
lemma pure (a : α) : Blind (Pure.pure a : Decode α) :=
  fun _ _ => rfl

/-- A step on the reader is blind. -/
lemma onReader {ε : Type} (rename : ε → CodecError) (step : Read ε α) :
    Blind (onReader rename step) := by
  intro r events
  simp only [Decode.onReader]
  cases step r <;> rfl

/-- Asking for the position is blind. -/
lemma position : Blind Decode.position :=
  fun _ _ => rfl

/-- Blind steps are blind one after another. -/
lemma bind {m : Decode α} {next : α → Decode β} (h : Blind m) (hnext : ∀ a, Blind (next a)) :
    Blind (m >>= next) := by
  intro r events
  rw [bind_apply, bind_apply, h r events]
  cases m ⟨r, []⟩ with
  | error e s => rfl
  | ok a s =>
    dsimp only
    rw [hnext a s.reader (s.events ++ events), show s = ⟨s.reader, s.events⟩ from rfl,
      hnext a s.reader s.events]
    cases next a ⟨s.reader, []⟩ <;> simp only [List.append_assoc]

/-- A block under a limit is blind if the block is. -/
lemma within {block : Decode α} (h : Blind block) (stop : Nat) : Blind (within stop block) := by
  intro r events
  simp only [Decode.within]
  split
  · rfl
  · split
    · rfl
    · rw [h _ events]
      cases block ⟨{ r with limit := stop }, []⟩ <;> rfl

/-- A framed block is blind if the block is. -/
lemma framed {block : Decode α} (h : Blind block) (size : Nat) : Blind (framed size block) :=
  bind position fun _ => bind (within h _) fun _ => bind (onReader _ _) fun _ => pure _

end Blind

/-- What is assembled around objects adds to the report what the objects add. -/
theorem Assembled.blind {m : Decode α} (h : Assembled objects types m)
    (hobjects : ∀ type, types type → Blind (objects type)) : Blind m := by
  induction h with
  | pure a => exact Blind.pure a
  | payload _ => exact Blind.onReader _ _
  | object h => exact hobjects _ h
  | bind _ _ ih ihnext => exact Blind.bind ih ihnext
  | framed size _ ih => exact Blind.framed ih size

/-! ## Locality -/

/-- A block under a limit that is in reach runs on the narrowed reader, and the limit is put
back. -/
lemma within_narrow (block : Decode α) {r : Reader} (hr : r.Sound) {n : Nat}
    (hn : n ≤ r.ahead.length) (events : List Diagnostic) :
    within (r.pos + n) block ⟨r, events⟩ =
      match block ⟨r.narrow n, events⟩ with
      | .ok a s => .ok a ⟨{ s.reader with limit := r.limit }, s.events⟩
      | .error e s => .error e ⟨{ s.reader with limit := r.limit }, s.events⟩ := by
  have hlimit := Reader.limit_eq hr
  unfold within
  dsimp only
  rw [if_neg (by omega), if_neg (by omega)]
  rfl

/-- A block under a limit behind the limit in force is refused. -/
lemma within_refused (block : Decode α) {r : Reader} (hr : r.Sound) {n : Nat}
    (hn : r.ahead.length < n) (events : List Diagnostic) :
    within (r.pos + n) block ⟨r, events⟩ =
      .error (.field (.buffer (.limitExceeded (r.pos + n) r.limit))) ⟨r, events⟩ := by
  have hlimit := Reader.limit_eq hr
  unfold within
  dsimp only
  rw [if_pos (by omega)]

/-- Moving to a position that is not behind the limit. -/
lemma seek_apply {r : Reader} (hr : r.Sound) {bytes : Array UInt8} {pos n : Nat}
    (hn : n ≤ r.ahead.length) (events : List Diagnostic) (hbytes : bytes = r.bytes) :
    seek (r.pos + n) ⟨⟨bytes, pos, r.limit⟩, events⟩ = .ok () ⟨r.advance n, events⟩ := by
  have hlimit := Reader.limit_eq hr
  have hseek : Read.mapError FieldError.buffer (Read.seek (r.pos + n)) ⟨bytes, pos, r.limit⟩ =
      .ok () (r.advance n) := by
    simp only [Read.mapError, Read.seek]
    rw [if_neg (by omega), hbytes]
    rfl
  show onReader .field (Read.mapError .buffer (Read.seek (r.pos + n)))
    ⟨⟨bytes, pos, r.limit⟩, events⟩ = _
  simp only [onReader, hseek]

/-- Results that match behind the next bytes match. -/
lemma Matched.behind {r₁ r₂ : Reader} {n : Nat}
    {result₁ result₂ : EStateM.Result CodecError DecodeState α}
    (h : Matched (r₁.advance n) (r₂.advance n) result₁ result₂) (hn₁ : n ≤ r₁.ahead.length)
    (hn₂ : n ≤ r₂.ahead.length) : Matched r₁ r₂ result₁ result₂ := by
  cases h with
  | ok b m hm events₁ events₂ =>
    rw [Reader.ahead_advance, List.length_drop] at hm
    rw [Reader.advance_advance, Reader.advance_advance]
    exact .ok b (n + m) (by omega) events₁ events₂
  | error e₁ e₂ hfatal m₁ m₂ hm₁ hm₂ events₁ events₂ =>
    rw [Reader.ahead_advance, List.length_drop] at hm₁ hm₂
    rw [Reader.advance_advance, Reader.advance_advance]
    exact .error e₁ e₂ hfatal (n + m₁) (n + m₂) (by omega) (by omega) events₁ events₂

namespace Local

/-- A local computation moves forward, by no more than the bytes ahead. -/
theorem moves {m : Decode α} (h : Local m) {r : Reader} (hr : r.Sound)
    (events : List Diagnostic) :
    (∃ a n events', n ≤ r.ahead.length ∧ m ⟨r, events⟩ = .ok a ⟨r.advance n, events'⟩) ∨
      ∃ e n events', n ≤ r.ahead.length ∧
        m ⟨r, events⟩ = .error e ⟨r.advance n, events'⟩ := by
  -- the two runs are kept apart, so that only the first one is looked at
  have hfirst : ∀ result₁ result₂ : EStateM.Result CodecError DecodeState α,
      Matched r r result₁ result₂ →
        (∃ a n events', n ≤ r.ahead.length ∧ result₁ = .ok a ⟨r.advance n, events'⟩) ∨
          ∃ e n events', n ≤ r.ahead.length ∧ result₁ = .error e ⟨r.advance n, events'⟩ := by
    intro result₁ result₂ hmatch
    cases hmatch with
    | ok a n hn events => exact .inl ⟨a, n, events, hn, rfl⟩
    | error e _ _ n _ hn _ events => exact .inr ⟨e, n, events, hn, rfl⟩
  exact hfirst _ _ (h r r events events hr hr rfl)

/-- Answering at once is local. -/
lemma pure (a : α) : Local (Pure.pure a : Decode α) :=
  fun _ _ events₁ events₂ _ _ _ => .ok a 0 (Nat.zero_le _) events₁ events₂

/-- A payload is local if its step is. -/
lemma payload {step : Read FieldError α} (h : Read.Local step) : Local (payload step) := by
  intro r₁ r₂ events₁ events₂ hr₁ hr₂ hahead
  have hmatch := h r₁ r₂ hr₁ hr₂ hahead
  simp only [Decode.payload, onReader]
  generalize step r₁ = result₁, step r₂ = result₂ at hmatch ⊢
  cases hmatch with
  | ok a n hn => exact .ok a n hn _ _
  | error e₁ e₂ n hn =>
    exact .error (.field e₁) (.field e₂) rfl n n hn (hahead ▸ hn) events₁ events₂

/-- Local steps are local one after another. -/
lemma bind {m : Decode α} {next : α → Decode β} (h : Local m) (hnext : ∀ a, Local (next a)) :
    Local (m >>= next) := by
  intro r₁ r₂ events₁ events₂ hr₁ hr₂ hahead
  rw [bind_apply, bind_apply]
  have hmatch := h r₁ r₂ events₁ events₂ hr₁ hr₂ hahead
  generalize m ⟨r₁, events₁⟩ = result₁, m ⟨r₂, events₂⟩ = result₂ at hmatch ⊢
  cases hmatch with
  | error e₁ e₂ hfatal n₁ n₂ hn₁ hn₂ events₁ events₂ =>
    exact .error e₁ e₂ hfatal n₁ n₂ hn₁ hn₂ events₁ events₂
  | ok a n hn events₁ events₂ =>
    have hn₂ : n ≤ r₂.ahead.length := hahead ▸ hn
    have hrest := hnext a (r₁.advance n) (r₂.advance n) events₁ events₂ (hr₁.advance hn)
      (hr₂.advance hn₂) (by rw [Reader.ahead_advance, Reader.ahead_advance, hahead])
    dsimp only
    exact hrest.behind hn hn₂

end Local

/-- A framed block that has room is run on the narrowed reader, and what it leaves is passed
over. -/
lemma framed_of_le {block : Decode α} (h : Local block) {r : Reader} (hr : r.Sound) {size : Nat}
    (hsize : size ≤ r.ahead.length) (events : List Diagnostic) :
    framed size block ⟨r, events⟩ =
      match block ⟨r.narrow size, events⟩ with
      | .ok a s => .ok a ⟨r.advance size, s.events⟩
      | .error e s => .error e ⟨{ s.reader with limit := r.limit }, s.events⟩ := by
  have hwithin := within_narrow block hr hsize events
  show (within (r.pos + size) block >>= fun a => seek (r.pos + size) >>= fun _ => pure a)
    ⟨r, events⟩ = _
  rw [bind_apply, hwithin]
  rcases h.moves (hr.narrow hsize) events with
    ⟨a, n, events', -, hblock⟩ | ⟨e, n, events', -, hblock⟩
  · rw [hblock]
    dsimp only
    rw [bind_apply, Reader.advance_bytes, Reader.narrow_bytes, seek_apply hr hsize _ rfl]
    rfl
  · rw [hblock]

/-- A framed block that has no room is refused. -/
lemma framed_of_lt (block : Decode α) {r : Reader} (hr : r.Sound) {size : Nat}
    (hsize : r.ahead.length < size) (events : List Diagnostic) :
    framed size block ⟨r, events⟩ =
      .error (.field (.buffer (.limitExceeded (r.pos + size) r.limit))) ⟨r, events⟩ := by
  show (within (r.pos + size) block >>= fun a => seek (r.pos + size) >>= fun _ => pure a)
    ⟨r, events⟩ = _
  rw [bind_apply, within_refused block hr hsize]

/-- A framed block is local if the block is. -/
lemma Local.framed {block : Decode α} (h : Local block) (size : Nat) :
    Local (framed size block) := by
  intro r₁ r₂ events₁ events₂ hr₁ hr₂ hahead
  by_cases hsize : size ≤ r₁.ahead.length
  · have hsize₂ : size ≤ r₂.ahead.length := hahead ▸ hsize
    rw [framed_of_le h hr₁ hsize, framed_of_le h hr₂ hsize₂]
    have hmatch := h (r₁.narrow size) (r₂.narrow size) events₁ events₂ (hr₁.narrow hsize)
      (hr₂.narrow hsize₂)
      (by rw [Reader.ahead_narrow hr₁ hsize, Reader.ahead_narrow hr₂ hsize₂, hahead])
    generalize block ⟨r₁.narrow size, events₁⟩ = result₁,
      block ⟨r₂.narrow size, events₂⟩ = result₂ at hmatch ⊢
    cases hmatch with
    | ok a n hn events₁ events₂ => exact .ok a size hsize events₁ events₂
    | error e₁ e₂ hfatal n₁ n₂ hn₁ hn₂ events₁ events₂ =>
      rw [Reader.ahead_narrow hr₁ hsize, List.length_take] at hn₁
      rw [Reader.ahead_narrow hr₂ hsize₂, List.length_take] at hn₂
      exact .error e₁ e₂ hfatal n₁ n₂ (by omega) (by omega) events₁ events₂
  · rw [framed_of_lt block hr₁ (by omega), framed_of_lt block hr₂ (by rw [← hahead]; omega)]
    refine @Matched.error α r₁ r₂ _ _ ?_ 0 0 (Nat.zero_le _) (Nat.zero_le _) events₁ events₂
    rfl

/-- What is assembled around objects is local if reading the objects is. -/
theorem Assembled.local {m : Decode α} (h : Assembled objects types m)
    (hobjects : ∀ type, types type → Local (objects type)) : Local m := by
  induction h with
  | pure a => exact Local.pure a
  | payload h => exact Local.payload h.local
  | object h => exact hobjects _ h
  | bind _ _ ih ihnext => exact Local.bind ih ihnext
  | framed size _ ih => exact Local.framed ih size

/-! ## What is told, and who fails -/

/-- After a success, the final state is the one that came with the answer. -/
lemma final_ok {m : Decode α} {r : Reader} {a : α} {s : DecodeState}
    (h : m ⟨r, []⟩ = .ok a s) : final m r = s := by
  rw [final, h]

/-- After a failure, the final state is the one that came with the failure. -/
lemma final_error {m : Decode α} {r : Reader} {e : CodecError} {s : DecodeState}
    (h : m ⟨r, []⟩ = .error e s) : final m r = s := by
  rw [final, h]

namespace Told

variable {bytes : Array UInt8} {stop pos finish : Nat} {reported : Report}

/-- Reading that starts earlier, goes on longer or has more room. -/
lemma widen (h : Told objects types bytes stop pos finish reported) {stop' pos' finish' : Nat}
    (hstop : stop ≤ stop') (hpos : pos' ≤ pos) (hfinish : finish ≤ finish') :
    Told objects types bytes stop' pos' finish' reported := by
  induction h generalizing pos' with
  | nil h => exact .nil (by omega)
  | cons htype hr hbytes hpos' hstop' _ ih =>
    exact .cons htype hr hbytes (by omega) (by omega) (ih (Nat.le_refl _) hfinish)

/-- Reports of objects one behind the other are told one behind the other. -/
lemma append {mid : Nat} {reported' : Report} (h : Told objects types bytes stop pos mid reported)
    (h' : Told objects types bytes stop mid finish reported') :
    Told objects types bytes stop pos finish (reported ++ reported') := by
  induction h with
  | nil h => exact h'.widen (Nat.le_refl _) h (Nat.le_refl _)
  | cons htype hr hbytes hpos hstop _ ih =>
    rw [List.append_assoc]
    exact .cons htype hr hbytes hpos hstop (ih h')

end Told

/-- What a run reports is what the objects report that it reads, one behind the other. -/
theorem Assembled.told {m : Decode α} (h : Assembled objects types m)
    (hblind : ∀ type, types type → Blind (objects type))
    (hlocal : ∀ type, types type → Local (objects type)) {r : Reader} (hr : r.Sound) :
    Told objects types r.bytes r.limit r.pos (final m r).reader.pos (report m r) := by
  induction h generalizing r with
  | pure a => exact .nil (Nat.le_refl _)
  | @payload α step h =>
    rcases h.local.moves hr with ⟨a, n, -, hstep⟩ | ⟨e, n, -, hstep⟩
    · have hrun : Decode.payload step ⟨r, []⟩ = .ok a ⟨r.advance n, []⟩ := by
        simp only [Decode.payload, onReader, hstep]
      rw [report, final_ok hrun]
      exact .nil (Nat.le_add_right _ _)
    · have hrun : Decode.payload step ⟨r, []⟩ = .error (.field e) ⟨r.advance n, []⟩ := by
        simp only [Decode.payload, onReader, hstep]
      rw [report, final_error hrun]
      exact .nil (Nat.le_add_right _ _)
  | @object type h =>
    rw [← List.append_nil (report (objects type) r)]
    exact .cons h hr rfl (Nat.le_refl _) (Nat.le_refl _) (.nil (Nat.le_refl _))
  | @bind α β m next h hnext ih ihnext =>
    have hm := ih hr
    rcases (h.local hlocal).moves hr [] with ⟨a, n, events, hn, hrun⟩ | ⟨e, n, events, hn, hrun⟩
    · have hrest := ihnext a (hr.advance hn)
      have hbind : final (m >>= next) r =
          ⟨(final (next a) (r.advance n)).reader,
            (final (next a) (r.advance n)).events ++ events⟩ := by
        rw [final, bind_apply, hrun]
        dsimp only
        rw [(hnext a).blind hblind, final]
        cases next a ⟨r.advance n, []⟩ <;> rfl
      rw [report, final_ok hrun] at hm
      rw [report, hbind, List.reverse_append]
      exact hm.append hrest
    · have hbind : (m >>= next) ⟨r, []⟩ = .error e ⟨r.advance n, events⟩ := by
        rw [bind_apply, hrun]
      rw [report, final_error hrun] at hm
      rw [report, final_error hbind]
      exact hm
  | @framed α size block h ih =>
    have hlimit := Reader.limit_eq hr
    by_cases hsize : size ≤ r.ahead.length
    · have hblock := ih (hr.narrow hsize)
      have hframed := framed_of_le (h.local hlocal) hr hsize []
      rcases (h.local hlocal).moves (hr.narrow hsize) [] with
        ⟨a, n, events, hn, hrun⟩ | ⟨e, n, events, hn, hrun⟩
      · rw [Reader.ahead_narrow hr hsize, List.length_take] at hn
        rw [report, final_ok hrun] at hblock
        rw [hrun] at hframed
        rw [report, final_ok hframed]
        exact hblock.widen (by rw [Reader.narrow_limit]; omega) (Nat.le_refl _)
          (by simp only [Reader.advance_pos, Reader.narrow_pos]; omega)
      · rw [report, final_error hrun] at hblock
        rw [hrun] at hframed
        rw [report, final_error hframed]
        exact hblock.widen (by rw [Reader.narrow_limit]; omega) (Nat.le_refl _) (Nat.le_refl _)
    · have hframed := framed_of_lt block hr (Nat.lt_of_not_le hsize) []
      rw [report, final_error hframed]
      exact .nil (Nat.le_refl _)

/-- Where a run fails fatally, it is an object inside that fails. -/
theorem Assembled.blames {m : Decode α} (h : Assembled objects types m)
    (hblind : ∀ type, types type → Blind (objects type))
    (hlocal : ∀ type, types type → Local (objects type)) {r : Reader} (hr : r.Sound)
    {e : CodecError} {s : DecodeState} (hrun : m ⟨r, []⟩ = .error e s) (hfatal : e.isFatal) :
    ∃ type r' s', types type ∧ r'.Sound ∧ r'.ahead.length ≤ r.ahead.length ∧
      objects type ⟨r', []⟩ = .error e s' := by
  induction h generalizing r s with
  | pure a => cases hrun
  | @payload α step h =>
    simp only [Decode.payload, onReader] at hrun
    cases hstep : step r with
    | ok a r' =>
      rw [hstep] at hrun
      cases hrun
    | error e' r' =>
      rw [hstep] at hrun
      cases hrun
      cases hfatal
  | @object type h => exact ⟨type, r, s, h, hr, Nat.le_refl _, hrun⟩
  | @bind α β m next h hnext ih ihnext =>
    rw [bind_apply] at hrun
    rcases (h.local hlocal).moves hr [] with ⟨a, n, events, hn, hm⟩ | ⟨e', n, events, hn, hm⟩
    · rw [hm] at hrun
      dsimp only at hrun
      rw [(hnext a).blind hblind] at hrun
      cases hnextrun : next a ⟨r.advance n, []⟩ with
      | ok b s' =>
        rw [hnextrun] at hrun
        cases hrun
      | error e' s' =>
        rw [hnextrun] at hrun
        cases hrun
        obtain ⟨type, r', s'', htype, hr', hlength, hobject⟩ :=
          ihnext a (hr.advance hn) hnextrun
        rw [Reader.ahead_advance, List.length_drop] at hlength
        exact ⟨type, r', s'', htype, hr', by omega, hobject⟩
    · rw [hm] at hrun
      cases hrun
      exact ih hr hm
  | @framed α size block h ih =>
    by_cases hsize : size ≤ r.ahead.length
    · rw [framed_of_le (h.local hlocal) hr hsize] at hrun
      cases hblock : block ⟨r.narrow size, []⟩ with
      | ok a s' =>
        rw [hblock] at hrun
        cases hrun
      | error e' s' =>
        rw [hblock] at hrun
        cases hrun
        obtain ⟨type, r', s'', htype, hr', hlength, hobject⟩ := ih (hr.narrow hsize) hblock
        rw [Reader.ahead_narrow hr hsize, List.length_take] at hlength
        exact ⟨type, r', s'', htype, hr', by omega, hobject⟩
    · rw [framed_of_lt block hr (by omega)] at hrun
      cases hrun
      cases hfatal

end TaggedParcel.Decode
