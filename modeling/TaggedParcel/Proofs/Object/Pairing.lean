import TaggedParcel.Object.Encode
import TaggedParcel.Proofs.Object.Locality
import TaggedParcel.Proofs.Value.Roundtrip

set_option relaxedAutoImplicit false
set_option autoImplicit false

/-!
# Reading back payloads with objects

What writes objects into a payload is paired with what reads them, as it is for payloads without
objects. Only writing that reports nothing is looked at: a field that was left out cannot be read
back. What reading reports in turn is that integers are above the version gates of their fields.

## Main definitions

* `Report.OnlyGates` — reports of crossed version gates.
* `Decode.Parses` — a computation that reads an answer from some bytes, whatever follows them.
* `Decode.NeedsBytes` — computations that fail where there are no bytes.
* `Encode.Appends`, `Encode.ReadsBack` — a computation that writes bytes of a certain form, and one
  that writes what another one reads.

## Main results

* `Encode.ReadsBack.bind`, `Encode.ReadsBack.each` — pairs compose.
* `Encode.extent_ok` — what is written behind a reserved word, and the word.
* `Encode.ReadsBack.element`, `Encode.ReadsBack.tagged` — objects in collections.
-/

namespace TaggedParcel

/-- Reports in which there is nothing but crossed version gates. -/
def Report.OnlyGates (report : Report) : Prop :=
  ∀ event ∈ report, ∃ type field gate found, event = .versionGate type field gate found

/-- Reports of gates only are one report of gates only. -/
lemma Report.OnlyGates.append {report report' : Report} (h : report.OnlyGates)
    (h' : report'.OnlyGates) : Report.OnlyGates (report ++ report') := by
  intro event hevent
  rcases List.mem_append.mp hevent with hevent | hevent
  · exact h event hevent
  · exact h' event hevent

/-- An empty report is of gates only. -/
lemma Report.onlyGates_nil : Report.OnlyGates [] :=
  fun _ hevent => absurd hevent List.not_mem_nil

namespace Decode

variable {α β : Type}

/-- A computation that reads an answer from some bytes, whatever follows them, and reports
nothing but crossed version gates. -/
def Parses (m : Decode α) (bs : List UInt8) (a : α) : Prop :=
  ∀ r : Reader, r.Sound → bs <+: r.ahead → ∀ events, ∃ told : Report, told.OnlyGates ∧
    m ⟨r, events⟩ = .ok a ⟨r.advance bs.length, told ++ events⟩

/-- Computations that fail where there are no bytes. -/
def NeedsBytes (m : Decode α) : Prop :=
  ∃ e s, m ⟨.ofBytes #[], []⟩ = .error e s

namespace Parses

/-- Answering at once takes no bytes. -/
lemma pure (a : α) : Parses (Pure.pure a : Decode α) [] a :=
  fun _ _ _ _ => ⟨[], Report.onlyGates_nil, rfl⟩

/-- What two steps take one after another is what the first takes and what the second takes. -/
lemma bind {m : Decode α} {next : α → Decode β} {bs bs' : List UInt8} {a : α} {b : β}
    (h : Parses m bs a) (hnext : Parses (next a) bs' b) :
    Parses (m >>= next) (bs ++ bs') b := by
  intro r hr hboth events
  obtain ⟨hfront, hbehind⟩ := Reader.prefix_advance hboth
  obtain ⟨told, htold, hrun⟩ := h r hr hfront events
  obtain ⟨told', htold', hrun'⟩ :=
    hnext _ (hr.advance hfront.length_le) hbehind (told ++ events)
  refine ⟨told' ++ told, htold'.append htold, ?_⟩
  rw [bind_apply, hrun]
  dsimp only
  rw [hrun', Reader.advance_advance, List.length_append, List.append_assoc]

/-- What follows takes no more bytes. -/
lemma after {m : Decode α} {next : α → Decode β} {bs : List UInt8} {a : α} {b : β}
    (h : Parses m bs a) (hnext : Parses (next a) [] b) : Parses (m >>= next) bs b := by
  have hbind := h.bind hnext
  rw [List.append_nil] at hbind
  exact hbind

/-- An answer that is changed after it was read. -/
lemma map {m : Decode α} {bs : List UInt8} {a : α} (f : α → β) (h : Parses m bs a) :
    Parses (m >>= fun a => Pure.pure (f a)) bs (f a) :=
  h.after (pure (f a))

/-- A step on the reader. -/
lemma onReader {ε : Type} (rename : ε → CodecError) {step : Read ε α} {bs : List UInt8} {a : α}
    (h : Read.Parses step bs a) : Parses (onReader rename step) bs a := by
  intro r hr hfront events
  refine ⟨[], Report.onlyGates_nil, ?_⟩
  simp only [Decode.onReader, h r hr hfront]
  rfl

/-- A step on the reader reads what the computation reads that it is. -/
lemma of_payload {step : Read FieldError α} {bs : List UInt8} {a : α}
    (h : Parses (payload step) bs a) : Read.Parses step bs a := by
  intro r hr hfront
  obtain ⟨told, -, hrun⟩ := h r hr hfront []
  simp only [payload, Decode.onReader] at hrun
  cases hstep : step r with
  | error e r' =>
    rw [hstep] at hrun
    cases hrun
  | ok b r' =>
    rw [hstep] at hrun
    injection hrun with hanswer hstate
    have hreader : r' = r.advance bs.length := congrArg DecodeState.reader hstate
    rw [hanswer, hreader]

/-- A block that reads the whole of its frame. -/
lemma framed {block : Decode α} {bs : List UInt8} {a : α} (h : Parses block bs a) :
    Parses (framed bs.length block) bs a := by
  intro r hr hfront events
  have hlength := hfront.length_le
  obtain ⟨told, htold, hblock⟩ :=
    h (r.narrow bs.length) (hr.narrow hlength) (Reader.prefix_narrow hr hfront) events
  refine ⟨told, htold, ?_⟩
  show (within (r.pos + bs.length) block >>= fun a => seek (r.pos + bs.length) >>= fun _ =>
    Pure.pure a) ⟨r, events⟩ = _
  rw [bind_apply, within_narrow block hr hlength, hblock]
  dsimp only
  rw [bind_apply, Reader.advance_bytes, Reader.narrow_bytes, seek_apply hr hlength _ rfl]
  rfl

/-- Where there have to be bytes, there are some. -/
lemma ne_nil {m : Decode α} {bs : List UInt8} {a : α} (h : Parses m bs a) (hneeds : NeedsBytes m) :
    bs ≠ [] := by
  rintro rfl
  obtain ⟨e, s, hfail⟩ := hneeds
  have hsound : (Reader.ofBytes #[]).Sound := Reader.sound_ofBytes (by decide)
  obtain ⟨told, -, hrun⟩ := h _ hsound (List.nil_prefix) []
  rw [hfail] at hrun
  cases hrun

end Parses

/-- A counted collection whose payload is not null. -/
def counted (limits : Limits) (item : Decode α) : Decode (List α) := do
  match ← payload (Read.count limits) with
  | none => return []
  | some count => times count item

/-- A collection that is not null is counted. -/
lemma collection_eq {header : FieldHeader} (h : ¬ header.isNull) (limits : Limits)
    (item : Decode α) : collection limits header item = counted limits item := by
  unfold collection
  rw [if_neg h]
  rfl

/-- A counted collection needs bytes, namely those of its count. -/
lemma counted_needsBytes (limits : Limits) (item : Decode α) : NeedsBytes (counted limits item) :=
  ⟨_, _, rfl⟩

end Decode

namespace Encode

variable {α β : Type}

/-! ## Steps on the writer -/

/-- A step on the writer that succeeds does so on the writer alone, and reports nothing. -/
lemma onWriter_ok {ε : Type} {rename : ε → CodecError} {step : Write ε α} {s s' : EncodeState}
    {a : α} (h : onWriter rename step s = .ok a s') :
    step s.writer = .ok a s'.writer ∧ s'.events = s.events := by
  obtain ⟨w, events⟩ := s
  simp only [onWriter] at h
  cases hstep : step w with
  | error e w' =>
    rw [hstep] at h
    cases h
  | ok b w' =>
    rw [hstep] at h
    cases h
    exact ⟨rfl, rfl⟩

/-- Steps on the writer one after another. -/
lemma onWriter_bind {ε : Type} (rename : ε → CodecError) (step : Write ε α)
    (next : α → Write ε β) :
    onWriter rename (step >>= next) =
      onWriter rename step >>= fun a => onWriter rename (next a) := by
  funext s
  obtain ⟨w, events⟩ := s
  rw [bind_apply]
  simp only [onWriter]
  rw [bind_apply]
  cases step w <;> rfl

/-- What needs the schema of a type succeeds only if there is one. -/
lemma schema_bind_ok {env : Environment} {type : String} {next : Schema → Encode α}
    {s s' : EncodeState} {a : α} (h : (schema env type >>= next) s = .ok a s') :
    ∃ found, env.schemaOf type = .ok found ∧ next found s = .ok a s' := by
  obtain ⟨found, s₁, hschema, hnext⟩ := bind_ok h
  unfold schema at hschema
  cases hfound : env.schemaOf type with
  | error e =>
    rw [hfound] at hschema
    cases hschema
  | ok found' =>
    rw [hfound] at hschema
    cases hschema
    exact ⟨found, rfl, hnext⟩

/-! ## Computations that are read back -/

/-- A computation that, where it succeeds and reports nothing, appends bytes of a certain form,
unless these are more bytes than an object may have. -/
def Appends (write : Encode Unit) (form : List UInt8 → Prop) : Prop :=
  ∀ s s', write s = .ok () s' → s'.events = [] → s.events = [] ∧
    ∃ bs, s'.writer = s.writer.append bs ∧ (bs.length ≤ largestFrame → form bs)

/-- A computation that appends bytes from which another one reads a certain answer. -/
def ReadsBack (write : Encode Unit) (read : Decode α) (a : α) : Prop :=
  Appends write fun bs => Decode.Parses read bs a

namespace ReadsBack

/-- Where nothing is written, an answer is read back that takes no bytes. -/
lemma pure {read : Decode α} {a : α} (h : Decode.Parses read [] a) :
    ReadsBack (Pure.pure ()) read a := by
  intro s s' hrun hclean
  cases hrun
  exact ⟨hclean, [], Writer.append_nil.symm, fun _ => h⟩

/-- A computation that always fails is read back by anything. -/
lemma throw (e : CodecError) (read : Decode α) (a : α) :
    ReadsBack (MonadExcept.throw e) read a := by
  intro s s' hrun
  cases hrun

/-- What is written by two steps is read back by two steps. -/
lemma bind {write write' : Encode Unit} {read : Decode α} {next : α → Decode β} {a : α} {b : β}
    (h : ReadsBack write read a) (hnext : ReadsBack write' (next a) b) :
    ReadsBack (write >>= fun _ => write') (read >>= next) b := by
  intro s s' hrun hclean
  obtain ⟨_, s₁, hwrite, hrest⟩ := bind_ok hrun
  obtain ⟨hclean₁, bs', hbs', hparses'⟩ := hnext s₁ s' hrest hclean
  obtain ⟨hclean₀, bs, hbs, hparses⟩ := h s s₁ hwrite hclean₁
  refine ⟨hclean₀, bs ++ bs', by rw [hbs', hbs, Writer.append_append], fun hlength => ?_⟩
  rw [List.length_append] at hlength
  exact (hparses (by omega)).bind (hparses' (by omega))

/-- Whatever is read from the same bytes is read back as well. -/
lemma mono {write : Encode Unit} {read : Decode α} {read' : Decode β} {a : α} {b : β}
    (h : ReadsBack write read a)
    (hmono : ∀ bs, Decode.Parses read bs a → Decode.Parses read' bs b) :
    ReadsBack write read' b := by
  intro s s' hrun hclean
  obtain ⟨hclean₀, bs, hbs, hparses⟩ := h s s' hrun hclean
  exact ⟨hclean₀, bs, hbs, fun hlength => hmono bs (hparses hlength)⟩

/-- An answer that is changed after it was read. -/
lemma map {write : Encode Unit} {read : Decode α} {a : α} (f : α → β)
    (h : ReadsBack write read a) : ReadsBack write (read >>= fun a => Pure.pure (f a)) (f a) :=
  h.mono fun _ hparses => hparses.map f

/-- What needs the schema of a type. -/
lemma schema {env : Environment} {type : String} {write : Schema → Encode Unit} {read : Decode α}
    {a : α} (h : ∀ found, ReadsBack (write found) read a) :
    ReadsBack (schema env type >>= write) read a := by
  intro s s' hrun hclean
  obtain ⟨found, -, hwrite⟩ := schema_bind_ok hrun
  exact h found s s' hwrite hclean

/-- A step inside a payload. -/
lemma payload {write : Write FieldError Unit} {read : Read FieldError α} {a : α}
    (h : Write.ReadsBack write read a) : ReadsBack (payload write) (Decode.payload read) a := by
  intro s s' hrun hclean
  obtain ⟨hstep, hevents⟩ := onWriter_ok hrun
  obtain ⟨bs, hbs, hparses⟩ := h s.writer s'.writer hstep
  exact ⟨hevents ▸ hclean, bs, hbs, fun hlength =>
    Decode.Parses.onReader CodecError.field (hparses hlength)⟩

end ReadsBack

/-- Writing items one by one is writing the first one and then the others. -/
lemma each_cons (write : α → Encode Unit) (a : α) (rest : List α) :
    each write (a :: rest) = write a >>= fun _ => each write rest := by
  funext s
  rw [bind_apply]
  cases hwrite : write a s with
  | ok u s' => simp only [each, hwrite]
  | error e s' => simp only [each, hwrite]

/-- Items that are read back one by one are read back together. -/
lemma ReadsBack.each {write : α → Encode Unit} {read : Decode α} {items : List α}
    (h : ∀ a ∈ items, ReadsBack (write a) read a) :
    ReadsBack (each write items) (Decode.times items.length read) items := by
  have hgo : ∀ done, ReadsBack (Encode.each write items)
      (Decode.times.go read items.length done) (done.reverse ++ items) := by
    induction items with
    | nil =>
      intro done
      rw [List.append_nil]
      exact pure (Decode.Parses.pure done.reverse)
    | cons a rest ih =>
      intro done
      have hrest := ih (fun b hb => h b (List.mem_cons_of_mem a hb)) (a :: done)
      rw [List.reverse_cons, List.append_assoc, List.singleton_append] at hrest
      rw [each_cons, List.length_cons, Decode.times_go_succ]
      exact bind (h a List.mem_cons_self) hrest
  exact hgo []

/-! ## Sizes that are known afterwards -/

/-- Gives a reserved word the number of bytes behind it. -/
def closeExtent {ε : Type} (rename : ε → CodecError) (f : BufferError → ε) (slot : Slot) :
    Encode Unit :=
  onWriter rename do
    let stop ← Write.position
    Write.mapError f (Write.patchSize slot (stop - slot.stop))

/-- What is written behind a reserved word stays as it is, and the word becomes its size. -/
lemma extent_ok {ε : Type} {rename : ε → CodecError} {f : BufferError → ε} {body : Encode Unit}
    {form : List UInt8 → Prop} (hbody : Appends body form) {w : Writer}
    {events : List Diagnostic} {s' : EncodeState}
    (h : (body >>= fun _ => closeExtent rename f ⟨w.position⟩)
      ⟨w.append (LittleEndian.digits 4 0), events⟩ = .ok () s') (hclean : s'.events = []) :
    events = [] ∧ ∃ bs, s'.writer = w.append (LittleEndian.digits 4 bs.length ++ bs) ∧
      bs.length < UInt32.size ∧ (bs.length ≤ largestFrame → form bs) := by
  obtain ⟨_, s₁, hrun, hclose⟩ := bind_ok h
  obtain ⟨hpatch, hevents⟩ := onWriter_ok hclose
  obtain ⟨hclean₁, bs, hbs, hparses⟩ := hbody _ s₁ hrun (hevents ▸ hclean)
  obtain ⟨stop, w₁, hstop, hpatch⟩ := bind_ok hpatch
  cases hstop
  have hsize : s₁.writer.position - (Slot.mk w.position).stop = bs.length := by
    rw [hbs, Writer.position_append, Writer.position_append, LittleEndian.length_digits, Slot.stop]
    exact Nat.add_sub_cancel_left (w.position + 4) bs.length
  rw [hsize, hbs, Writer.append_append] at hpatch
  obtain ⟨hlt, hwriter⟩ := Write.patchSize_ok (Write.mapError_ok hpatch)
  exact ⟨hclean₁, bs, hwriter, hlt, hparses⟩

/-- An object as a generic value is a tag, a name and the object. -/
lemma tagged_eq (nested : ObjectWriter) (type name : String) (o : Object) :
    tagged nested type name o = payload (Write.i32 ValueTag.parcelable.code) >>= fun _ =>
      payload (liftM (Write.string16 name)) >>= fun _ => nested type o := by
  unfold tagged payload
  rw [onWriter_bind, bind_assoc]

namespace ReadsBack

variable {nested : ObjectWriter} {reader : ObjectReader} {type : String} {o : Object}

/-- An object behind a word with its size. -/
lemma element (h : ReadsBack (nested type o) (reader type) o)
    (hneeds : Decode.NeedsBytes (reader type)) :
    ReadsBack (element nested type o) (Decode.element reader type) (some o) := by
  intro s s' hrun hclean
  have hextent : (nested type o >>= fun _ =>
      closeExtent CodecError.field FieldError.buffer ⟨s.writer.position⟩)
      ⟨s.writer.append (LittleEndian.digits 4 0), s.events⟩ = .ok () s' := hrun
  obtain ⟨hclean₀, bs, hbs, hlt, hparses⟩ := extent_ok h hextent hclean
  refine ⟨hclean₀, _, hbs, fun hlength => ?_⟩
  rw [List.length_append] at hlength
  have hobject := hparses (by omega)
  have hsize : (UInt32.ofNat bs.length).toNat = bs.length := UInt32.toNat_ofNat_of_lt' hlt
  have hzero : UInt32.ofNat bs.length ≠ 0 := by
    intro hzero
    rw [hzero] at hsize
    exact hobject.ne_nil hneeds (List.eq_nil_of_length_eq_zero hsize.symm)
  rw [Decode.element_eq]
  refine (Decode.Parses.onReader CodecError.field
    ((Read.Parses.u32 bs.length).mapError FieldError.buffer)).bind ?_
  rw [if_neg hzero, hsize]
  exact hobject.framed.map some

/-- An object that is missing from an array. -/
lemma elementOrNull {item : Option Object}
    (h : ∀ o ∈ item, ReadsBack (nested type o) (reader type) o)
    (hneeds : Decode.NeedsBytes (reader type)) :
    ReadsBack (elementOrNull nested type item) (Decode.element reader type) item := by
  cases item with
  | some o => exact element (h o rfl) hneeds
  | none =>
    have hword : ReadsBack (Encode.payload (Write.i32 0)) (Decode.payload (liftM Read.u32)) 0 :=
      payload (Write.ReadsBack.liftRead (Write.ReadsBack.u32 0))
    refine hword.mono fun bs hparses => hparses.after ?_
    exact Decode.Parses.pure none

/-- An object as a generic value, under any name. -/
lemma tagged (name : String) (h : ReadsBack (nested type o) (reader type) o) :
    ReadsBack (tagged nested type name o) (Decode.tagged reader type) (some o) := by
  have htag : Write.ReadsBack (Write.i32 ValueTag.parcelable.code)
      (do ValueTag.parse (← Read.i32) : Read FieldError ValueTag) .parcelable :=
    (Write.ReadsBack.liftRead (Write.ReadsBack.i32 ValueTag.parcelable.code)).after
      (Read.Parses.parseTag .parcelable)
  rw [tagged_eq]
  refine bind (payload htag) ?_
  exact bind (payload (Write.ReadsBack.lift (Write.ReadsBack.string16 name))) (h.map some)

/-- An object that must not be missing. -/
lemma required {write : Encode Unit} {read : Decode (Option Object)}
    (h : ReadsBack write read (some o)) : ReadsBack write (Decode.required read) o :=
  h.mono fun _ hparses => hparses.after (Decode.Parses.pure o)

/-- A counted collection whose payload is not null. -/
lemma collection {α : Type} {limits : Limits} {write : α → Encode Unit} {read : Decode α}
    {items : List α} (hlength : items.length ≤ limits.maxElements)
    (h : ∀ a ∈ items, ReadsBack (write a) read a) :
    ReadsBack (Encode.payload (liftM (Write.length items.length)) >>= fun _ =>
      Encode.each write items) (Decode.counted limits read) items :=
  bind (payload (Write.ReadsBack.count hlength)) (each h)

end ReadsBack

end Encode

end TaggedParcel
