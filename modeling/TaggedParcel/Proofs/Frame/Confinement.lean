import TaggedParcel.Proofs.Frame.Steady

set_option relaxedAutoImplicit false
set_option autoImplicit false

/-!
# Programs of reads stay inside their limits

A program on a reader decides what to do next by what it has seen so far, failures included: a
step that fails does not end it, and no more does a block that fails. Whatever it does, the
reader stays inside the buffer and inside the limit in force, and the limit before a block is in
force again behind it. What a program does in a block depends on no byte behind the end of the
block.

## Main definitions

* `ReaderOp` — the operations on a reader.
* `ReaderProgram` — programs of operations and of blocks, which go on after failures.
* `ReaderProgram.run`, `ReaderProgram.trace` — what a program leaves, and what can be observed
  on the way.
* `Observation.Confined` — what is promised of every observation.
* `ReaderProgram.Blind` — programs that do not ask for the length of the buffer.

## Main results

* `ReaderOp.steady`, `ReaderOp.parallel` — what one operation preserves, in one buffer and in
  two buffers with the same beginning.
* `ReaderProgram.run_steady`, `ReaderProgram.run_parallel` — so does a whole program.
* `ReaderProgram.confined` — programs are confined to their limits, and blocks to their bytes.
-/

namespace TaggedParcel

/-! ## Operations -/

/-- The length of the whole buffer, the bytes behind the limit included. -/
def Read.total {ε : Type} : Read ε Nat := fun r => .ok r.bytes.size r

/-- How many bytes lie before the limit. -/
def Read.remaining {ε : Type} : Read ε Nat := fun r => .ok r.remaining r

/-- The operations on a reader. -/
inductive ReaderOp where
  | position
  | limit
  | remaining
  | total
  | seek (target : Nat)
  | skip (count : Nat)
  | raw (count : Nat)
  | i32
  | u32
  | i64
  | u64
  | float
  | double
  | bool
  | length
  | byteArray
  | string16
  | fieldHeader
  | objectHeader
  | skipField (header : FieldHeader)

namespace ReaderOp

/-- What an operation answers. -/
def Answer : ReaderOp → Type
  | position | limit | remaining | total | objectHeader => Nat
  | seek _ | skip _ | skipField _ => Unit
  | raw _ => Array UInt8
  | i32 => Int32
  | u32 => UInt32
  | i64 => Int64
  | u64 => UInt64
  | float => Binary32
  | double => Binary64
  | bool => Bool
  | length => Option Nat
  | byteArray => Option (Array UInt8)
  | string16 => Option String
  | fieldHeader => FieldHeader

/-- What an operation does. -/
def step : (op : ReaderOp) → Read FrameError op.Answer
  | position => Read.position
  | limit => Read.limit
  | remaining => Read.remaining
  | total => Read.total
  | seek target => Read.mapError .buffer (Read.seek target)
  | skip count => Read.mapError .buffer (Read.skip count)
  | raw count => Read.mapError .buffer (Read.raw count)
  | i32 => Read.mapError .buffer Read.i32
  | u32 => Read.mapError .buffer Read.u32
  | i64 => Read.mapError .buffer Read.i64
  | u64 => Read.mapError .buffer Read.u64
  | float => Read.mapError .buffer Read.float
  | double => Read.mapError .buffer Read.double
  | bool => Read.mapError .buffer Read.bool
  | length => Read.mapError .buffer Read.length
  | byteArray => Read.mapError .buffer Read.byteArray
  | string16 => Read.mapError .buffer Read.string16
  | fieldHeader => Read.fieldHeader
  | objectHeader => Read.objectHeader
  | skipField header => Read.skipField header

/-- Every operation is steady. -/
lemma steady (op : ReaderOp) : op.step.Steady := by
  cases op with
  | position => exact .position
  | limit => exact .limit
  | remaining => exact fun _ h => .refl h
  | total => exact fun _ h => .refl h
  | seek target => exact .mapError _ (.seek target)
  | skip count => exact .mapError _ (Read.Assembled.skip count).steady
  | raw count => exact .mapError _ (.takePadded count count)
  | i32 => exact .mapError _ Read.Assembled.i32.steady
  | u32 => exact .mapError _ Read.Assembled.u32.steady
  | i64 => exact .mapError _ Read.Assembled.i64.steady
  | u64 => exact .mapError _ Read.Assembled.u64.steady
  | float => exact .mapError _ Read.Assembled.float.steady
  | double => exact .mapError _ Read.Assembled.double.steady
  | bool => exact .mapError _ Read.Assembled.bool.steady
  | length => exact .mapError _ Read.Assembled.length.steady
  | byteArray => exact .mapError _ Read.Assembled.byteArray.steady
  | string16 => exact .mapError _ Read.Assembled.string16.steady
  | fieldHeader => exact .fieldHeader
  | objectHeader => exact .objectHeader
  | skipField header => exact .skipField header

/-- Every operation but `total` runs alike on twins. -/
lemma parallel {op : ReaderOp} (h : op ≠ total) (extent : Nat) :
    Parallel (Reader.Twin extent) op.step := by
  cases op with
  | position => exact Read.parallel_position
  | limit => exact Read.parallel_limit
  | remaining =>
    rintro _ _ ⟨pos, limit, hlimit, hbytes⟩
    exact .ok (limit - pos) (.intro pos limit hlimit hbytes)
  | total => exact absurd rfl h
  | seek target => exact Read.parallel_mapError _ (Read.parallel_seek target)
  | skip count => exact Read.parallel_mapError _ ((Read.Assembled.skip count).parallel extent)
  | raw count => exact Read.parallel_mapError _ (Read.parallel_takePadded (Nat.le_refl count))
  | i32 => exact Read.parallel_mapError _ (Read.Assembled.i32.parallel extent)
  | u32 => exact Read.parallel_mapError _ (Read.Assembled.u32.parallel extent)
  | i64 => exact Read.parallel_mapError _ (Read.Assembled.i64.parallel extent)
  | u64 => exact Read.parallel_mapError _ (Read.Assembled.u64.parallel extent)
  | float => exact Read.parallel_mapError _ (Read.Assembled.float.parallel extent)
  | double => exact Read.parallel_mapError _ (Read.Assembled.double.parallel extent)
  | bool => exact Read.parallel_mapError _ (Read.Assembled.bool.parallel extent)
  | length => exact Read.parallel_mapError _ (Read.Assembled.length.parallel extent)
  | byteArray => exact Read.parallel_mapError _ (Read.Assembled.byteArray.parallel extent)
  | string16 => exact Read.parallel_mapError _ (Read.Assembled.string16.parallel extent)
  | fieldHeader => exact Read.parallel_fieldHeader
  | objectHeader => exact Read.parallel_objectHeader
  | skipField header => exact Read.parallel_skipField header

end ReaderOp

/-! ## Programs -/

/-- Programs on a reader. What comes behind an operation or a block is chosen by its answer or
its failure. -/
inductive ReaderProgram : Type → Type 1 where
  /-- The program is over, with an answer or a failure. -/
  | done {α : Type} (result : Except FrameError α) : ReaderProgram α
  /-- An operation. -/
  | call {α : Type} (op : ReaderOp) (next : Except FrameError op.Answer → ReaderProgram α) :
    ReaderProgram α
  /-- A block up to `stop`. -/
  | within {α β : Type} (stop : Nat) (body : ReaderProgram β)
    (next : Except FrameError β → ReaderProgram α) : ReaderProgram α

/-- What happens while a program runs. -/
inductive ReaderEvent : Type 1 where
  /-- An operation answers or fails. -/
  | called (op : ReaderOp) (result : Except FrameError op.Answer)
  /-- A block is refused. -/
  | refused (stop : Nat) {β : Type} (result : Except FrameError β)
  /-- A block starts. -/
  | opened (stop : Nat)
  /-- A block that has started is over. -/
  | closed (stop : Nat) {β : Type} (result : Except FrameError β)

/-- What can be observed while a program runs. -/
structure Observation where
  /-- What happens. -/
  event : ReaderEvent
  /-- The reader before; where a block is over, the reader before the block. -/
  before : Reader
  /-- The reader after. -/
  after : Reader

namespace Observation

/-- What is promised of an observation: the reader is inside its limit and the limit inside the
buffer. Operations keep the limit, a block that is refused keeps all of the reader, and behind a
block that has started the limit before it is in force. -/
def Confined (bytes : Array UInt8) (seen : Observation) : Prop :=
  seen.after.bytes = bytes ∧ seen.after.pos ≤ seen.after.limit ∧
    seen.after.limit ≤ bytes.size ∧
    match seen.event with
    | .called _ _ => seen.after.limit = seen.before.limit
    | .refused _ result => seen.after = seen.before ∧ ∃ e, result = .error e
    | .opened stop => seen.after = seen.before.under stop
    | .closed _ _ => seen.after.limit = seen.before.limit

/-- What is compared of an observation: what happens, and the positions before and after. -/
def shown (seen : Observation) : ReaderEvent × Nat × Nat :=
  (seen.event, seen.before.pos, seen.after.pos)

/-- What is observed of a block, given what is observed inside it and its outcome. -/
def ofBlock {β : Type} (stop : Nat) (inside : Reader → List Observation)
    (result : Except FrameError β) (before after : Reader) : List Observation :=
  match before.entry? stop with
  | some inner =>
    ⟨.opened stop, before, inner⟩ :: (inside inner ++ [⟨.closed stop result, before, after⟩])
  | none => [⟨.refused stop result, before, after⟩]

variable {β : Type} {stop : Nat} {inside : Reader → List Observation}
  {result : Except FrameError β}

/-- What is observed of a block is as promised, if what is observed inside it is. -/
lemma ofBlock_confined {r after : Reader} (hafter : r.Stays after)
    (hlimit : r.limit ≤ r.bytes.size)
    (hrefused : r.entry? stop = none → after = r ∧ ∃ e, result = .error e)
    (hinside : ∀ inner, r.entry? stop = some inner →
      ∀ seen ∈ inside inner, seen.Confined r.bytes) :
    ∀ seen ∈ ofBlock stop inside result r after, seen.Confined r.bytes := by
  have hend : after.limit ≤ r.bytes.size := hafter.limit_eq ▸ hlimit
  unfold ofBlock
  cases hentry : r.entry? stop with
  | none =>
    intro seen hseen
    rw [List.mem_singleton] at hseen
    subst hseen
    exact ⟨hafter.bytes_eq, hafter.pos_le, hend, hrefused hentry⟩
  | some inner =>
    intro seen hseen
    rcases List.mem_cons.mp hseen with rfl | hseen
    · obtain ⟨rfl, hstart, hstop⟩ := Reader.entry?_some hentry
      exact ⟨rfl, hstart, Nat.le_trans hstop hlimit, rfl⟩
    rcases List.mem_append.mp hseen with hseen | hseen
    · exact hinside inner hentry seen hseen
    · rw [List.mem_singleton] at hseen
      subst hseen
      exact ⟨hafter.bytes_eq, hafter.pos_le, hend, hafter.limit_eq⟩

/-- Blocks show the same, if they start at the same position, both or neither, and show the same
inside. -/
lemma shown_ofBlock {r₁ r₂ after₁ after₂ : Reader} (hpos : r₁.pos = r₂.pos)
    (hreach : stop ≤ r₁.limit ↔ stop ≤ r₂.limit)
    (hinside : stop ≤ r₁.limit →
      (inside (r₁.under stop)).map shown = (inside (r₂.under stop)).map shown)
    (result : Except FrameError β) (hafter : after₁.pos = after₂.pos) :
    (ofBlock stop inside result r₁ after₁).map shown =
      (ofBlock stop inside result r₂ after₂).map shown := by
  unfold ofBlock
  rw [Reader.entry?_eq, Reader.entry?_eq, hpos]
  by_cases hentry : r₂.pos ≤ stop ∧ stop ≤ r₂.limit
  · have hstop := hreach.mpr hentry.2
    rw [if_pos hentry, if_pos ⟨hentry.1, hstop⟩]
    dsimp only
    rw [List.map_cons, List.map_cons, List.map_append, List.map_append, hinside hstop]
    simp only [List.map_cons, List.map_nil, shown, Reader.under, hpos, hafter]
  · have hrefused : ¬(r₂.pos ≤ stop ∧ stop ≤ r₁.limit) :=
      fun h => hentry ⟨h.1, hreach.mp h.2⟩
    rw [if_neg hentry, if_neg hrefused]
    simp only [List.map_cons, List.map_nil, shown, hpos, hafter]

end Observation

namespace ReaderProgram

/-- Runs a program. -/
def run {α : Type} : ReaderProgram α → Read FrameError α
  | done (.ok a) => pure a
  | done (.error e) => throw e
  | call op next => fun r =>
    let seen := op.step.outcome r
    (next seen.1).run seen.2
  | within stop body next => fun r =>
    let seen := (Read.within FrameError.buffer stop body.run).outcome r
    (next seen.1).run seen.2

/-- What can be observed while a program runs, in order. -/
def trace {α : Type} : ReaderProgram α → Reader → List Observation
  | done _, _ => []
  | call op next, r =>
    let seen := op.step.outcome r
    ⟨.called op seen.1, r, seen.2⟩ :: (next seen.1).trace seen.2
  | within stop body next, r =>
    let seen := (Read.within FrameError.buffer stop body.run).outcome r
    Observation.ofBlock stop body.trace seen.1 r seen.2 ++ (next seen.1).trace seen.2

/-- Programs that do not ask for the length of the buffer, whatever they see. -/
def Blind {α : Type} : ReaderProgram α → Prop
  | done _ => True
  | call op next => op ≠ .total ∧ ∀ seen, (next seen).Blind
  | within _ body next => body.Blind ∧ ∀ seen, (next seen).Blind

/-! ## One run -/

/-- A program is steady, because its operations are. -/
lemma run_steady {α : Type} (p : ReaderProgram α) : p.run.Steady := by
  induction p with
  | done result =>
    cases result with
    | ok a => exact .pure a
    | error e => exact .throw e
  | call op next ih =>
    intro r hr
    have hop := op.steady r hr
    exact hop.trans (ih _ _ hop.pos_le)
  | within stop body next ihbody ihnext =>
    intro r hr
    have hblock := Read.Steady.within FrameError.buffer stop ihbody r hr
    exact hblock.trans (ihnext _ _ hblock.pos_le)

/-- Whatever a program does, what can be observed of it is as promised. -/
lemma trace_confined {α : Type} (p : ReaderProgram α) {r : Reader} (hpos : r.pos ≤ r.limit)
    (hlimit : r.limit ≤ r.bytes.size) : ∀ seen ∈ p.trace r, seen.Confined r.bytes := by
  induction p generalizing r with
  | done result => exact fun seen hseen => absurd hseen List.not_mem_nil
  | call op next ih =>
    have hop := op.steady r hpos
    have hend := hop.limit_le hlimit
    intro seen hseen
    rcases List.mem_cons.mp hseen with rfl | hseen
    · exact ⟨hop.bytes_eq, hop.pos_le, hop.bytes_eq ▸ hend, hop.limit_eq⟩
    · exact hop.bytes_eq ▸ ih _ hop.pos_le hend seen hseen
  | within stop body next ihbody ihnext =>
    have hblock := Read.Steady.within FrameError.buffer stop body.run_steady r hpos
    have hend := hblock.limit_le hlimit
    intro seen hseen
    rcases List.mem_append.mp hseen with hseen | hseen
    · refine Observation.ofBlock_confined hblock hlimit (fun hrefused => ?_)
        (fun inner hentry => ?_) seen hseen
      · obtain ⟨e, houtcome⟩ := Read.outcome_within_refused body.run hrefused
        rw [houtcome]
        exact ⟨rfl, e, rfl⟩
      · obtain ⟨rfl, hstart, hstop⟩ := Reader.entry?_some hentry
        exact ihbody hstart (Nat.le_trans hstop hlimit)
    · exact hblock.bytes_eq ▸ ihnext _ hblock.pos_le hend seen hseen

/-! ## Two runs -/

/-- A program that does not ask for the length of the buffer runs alike on twins. -/
lemma run_parallel {α : Type} {p : ReaderProgram α} (hblind : p.Blind) (extent : Nat) :
    Parallel (Reader.Twin extent) p.run := by
  induction p with
  | done result =>
    cases result with
    | ok a => exact .pure a
    | error e => exact .throw e
  | call op next ih =>
    intro r₁ r₂ hr
    obtain ⟨hanswer, hr⟩ := Read.outcome_twin (op.parallel hblind.1 extent) hr
    have hnext := fun seen => ih seen (hblind.2 seen) _ _ hr
    unfold run
    dsimp only
    rw [hanswer]
    exact hnext _
  | within stop body next ihbody ihnext =>
    intro r₁ r₂ hr
    obtain ⟨hanswer, hr⟩ := Read.outcome_twin
      (Read.parallel_within FrameError.buffer stop (ihbody hblind.1)) hr
    have hnext := fun seen => ihnext seen (hblind.2 seen) _ _ hr
    unfold run
    dsimp only
    rw [hanswer]
    exact hnext _

/-- On twins a program that does not ask for the length of the buffer shows the same. -/
lemma trace_twin {α : Type} {p : ReaderProgram α} (hblind : p.Blind) {extent : Nat}
    {r₁ r₂ : Reader} (hr : Reader.Twin extent r₁ r₂) :
    (p.trace r₁).map Observation.shown = (p.trace r₂).map Observation.shown := by
  induction p generalizing r₁ r₂ with
  | done result => rfl
  | call op next ih =>
    obtain ⟨hanswer, hafter⟩ := Read.outcome_twin (op.parallel hblind.1 extent) hr
    have hnext := fun seen => ih seen (hblind.2 seen) hafter
    unfold trace
    dsimp only
    rw [List.map_cons, List.map_cons, hanswer, hnext]
    congr 1
    unfold Observation.shown
    rw [hr.pos_eq, hafter.pos_eq]
  | within stop body next ihbody ihnext =>
    obtain ⟨hanswer, hafter⟩ := Read.outcome_twin
      (Read.parallel_within FrameError.buffer stop (run_parallel hblind.1 extent)) hr
    have hnext := fun seen => ihnext seen (hblind.2 seen) hafter
    unfold trace
    dsimp only
    rw [List.map_append, List.map_append, hanswer, hnext]
    congr 1
    exact Observation.shown_ofBlock hr.pos_eq (by rw [hr.limit_eq])
      (fun hstop => ihbody hblind.1 (hr.under hstop)) _ hafter.pos_eq

/-! ## The whole buffer -/

/-- A program that is run from the start of a buffer is confined: whatever it does, and however
its steps and blocks fail, the position is inside the limit and the limit inside the buffer after
every step, operations keep the limit, a block that is refused changes nothing, and behind a
block that has started the limit before it is in force again. If the program does not ask for the
length of the buffer, then in a block it shows the same, answers and failures and positions, in
all buffers with the same bytes up to the end of the block, whatever the limits behind that end. -/
theorem confined {α : Type} (p : ReaderProgram α) :
    (∀ bytes : Array UInt8,
      (∀ seen ∈ p.trace (.ofBytes bytes), seen.Confined bytes) ∧
        (Reader.ofBytes bytes).Stays (p.run.outcome (.ofBytes bytes)).2) ∧
      (p.Blind → ∀ (stop pos limit₁ limit₂ : Nat) (bytes₁ bytes₂ : Array UInt8),
        bytes₁.extract 0 stop = bytes₂.extract 0 stop → min stop limit₁ = min stop limit₂ →
        ((within stop p done).trace ⟨bytes₁, pos, limit₁⟩).map Observation.shown =
          ((within stop p done).trace ⟨bytes₂, pos, limit₂⟩).map Observation.shown) := by
  refine ⟨fun bytes => ⟨?_, ?_⟩, ?_⟩
  · exact p.trace_confined (Nat.zero_le _) (Nat.le_refl _)
  · exact p.run_steady _ (Nat.zero_le _)
  · intro hblind stop pos limit₁ limit₂ bytes₁ bytes₂ hbytes hlimit
    have hreach : stop ≤ limit₁ ↔ stop ≤ limit₂ := by omega
    obtain ⟨hanswer, hafter⟩ :=
      Read.outcome_within_twin (run_parallel hblind stop) hbytes pos hlimit
    have hinside := trace_twin hblind (.intro pos stop (Nat.le_refl stop) hbytes)
    unfold trace
    dsimp only
    rw [List.map_append, List.map_append, hanswer]
    congr 1
    exact Observation.shown_ofBlock (by rfl) hreach (fun _ => hinside) _ hafter

/-- Reads an array, goes on where the array breaks off, and reads its length again. -/
def rereading : ReaderProgram UInt32 :=
  call .byteArray fun _ =>
    within 2 (done (.ok ())) fun _ =>
      call (.seek 0) fun _ => within 4 (call .u32 done) done

/-- In a block it cannot be told whether the array goes on behind the block or the buffer ends
there: it breaks off behind its length, and the first inner block is refused. -/
theorem confined_rereading :
    rereading.Blind ∧
      (#[8, 0, 0, 0, 1, 2, 3, 4, 5, 6, 7, 8] : Array UInt8).extract 0 8 =
        (#[8, 0, 0, 0, 1, 2, 3, 4] : Array UInt8).extract 0 8 ∧
      ((within 8 rereading done).trace
        (.ofBytes #[8, 0, 0, 0, 1, 2, 3, 4, 5, 6, 7, 8])).map (·.after.pos) =
          [0, 4, 4, 0, 0, 4, 4, 4] ∧
      ((within 8 rereading done).trace
        (.ofBytes #[8, 0, 0, 0, 1, 2, 3, 4, 5, 6, 7, 8])).map Observation.shown =
      ((within 8 rereading done).trace
        (.ofBytes #[8, 0, 0, 0, 1, 2, 3, 4])).map Observation.shown := by
  have hblind : rereading.Blind := by simp [rereading, Blind]
  exact ⟨hblind, by decide, rfl,
    (confined rereading).2 hblind 8 0 12 8 _ _ (by decide) (by decide)⟩

end ReaderProgram

end TaggedParcel
