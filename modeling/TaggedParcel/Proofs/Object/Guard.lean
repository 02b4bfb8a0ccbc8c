import TaggedParcel.Proofs.Object.Nesting
import TaggedParcel.Proofs.Schema.Keys

set_option relaxedAutoImplicit false
set_option autoImplicit false

/-!
# Payloads that are read unless objects nest too deep

Whether a payload with objects in it can be read is decided by how deep they nest, once it is
known that what stands between the objects can be read. If they nest too deep, this is what
reading fails for, since it gets as far as the object that is one too many.

## Main definitions

* `CodecError.tooDeep` — the failure of an object in one object too many.
* `Decode.Guarded` — a computation that answers exactly if a condition holds.
* `Encode.ReadsIf` — a computation whose bytes are read exactly if a condition holds.

## Main results

* `Decode.Guarded.bind`, `Decode.Guarded.times`, `Decode.Guarded.framed` — guarded computations
  compose.
* `Encode.ReadsIf.counted` — the items of a collection are read if all conditions hold.
* `Encode.ReadsIf.element`, `Encode.ReadsIf.tagged` — objects in collections.
-/

namespace TaggedParcel

/-- The failure of an object in one object too many. -/
def CodecError.tooDeep (limits : Limits) : CodecError :=
  .depthExceeded (limits.maxDepth + 1) limits.maxDepth

namespace Decode

variable {α β : Type} {limits : Limits} {p q : Prop} {bs bs' : List UInt8}

/-! ## Reading under a condition -/

/-- A computation that answers from certain bytes, whatever follows them, if a condition holds,
and else fails because objects nest too deep. Something is known of the answer. -/
structure Guarded (limits : Limits) (p : Prop) (m : Decode α) (bs : List UInt8) (good : α → Prop) :
    Prop where
  /-- Under the condition there is an answer. -/
  answers : p → ∀ r : Reader, r.Sound → bs <+: r.ahead → ∀ events, ∃ a told, good a ∧
    m ⟨r, events⟩ = .ok a ⟨r.advance bs.length, told⟩
  /-- Without it there are too many objects in each other. -/
  fails : ¬ p → ∀ r : Reader, r.Sound → bs <+: r.ahead → ∀ events, ∃ s,
    m ⟨r, events⟩ = .error (.tooDeep limits) s

namespace Guarded

variable {m : Decode α} {next : α → Decode β} {good : α → Prop} {good' : β → Prop} {a : α}

/-- A computation without a condition. -/
lemma of_parses (h : Parses m bs a) (hp : p) (hgood : good a) : Guarded limits p m bs good := by
  refine ⟨fun _ r hr hfront events => ?_, fun hnot => absurd hp hnot⟩
  obtain ⟨told, -, hrun⟩ := h r hr hfront events
  exact ⟨a, told ++ events, hgood, hrun⟩

/-- A condition may be put in other words. -/
lemma congr (h : Guarded limits p m bs good) (hpq : p ↔ q) : Guarded limits q m bs good :=
  ⟨fun hq => h.answers (hpq.mpr hq), fun hq => h.fails fun hp => hq (hpq.mp hp)⟩

/-- Less may be known of the answer. -/
lemma mono {good' : α → Prop} (h : Guarded limits p m bs good) (hgood : ∀ a, good a → good' a) :
    Guarded limits p m bs good' := by
  refine ⟨fun hp r hr hfront events => ?_, h.fails⟩
  obtain ⟨a, told, ha, hrun⟩ := h.answers hp r hr hfront events
  exact ⟨a, told, hgood a ha, hrun⟩

/-- Two steps are passed exactly if both conditions hold. -/
lemma bind (h : Guarded limits p m bs good)
    (h' : ∀ a, good a → Guarded limits q (next a) bs' good') :
    Guarded limits (p ∧ q) (m >>= next) (bs ++ bs') good' := by
  refine ⟨fun hboth r hr hfront events => ?_, fun hnot r hr hfront events => ?_⟩
  all_goals
    obtain ⟨hfirst, hbehind⟩ := Reader.prefix_advance hfront
    rw [bind_apply]
  · obtain ⟨a, told, ha, hrun⟩ := h.answers hboth.1 r hr hfirst events
    obtain ⟨b, told', hb, hrun'⟩ :=
      (h' a ha).answers hboth.2 _ (hr.advance hfirst.length_le) hbehind told
    refine ⟨b, told', hb, ?_⟩
    rw [hrun]
    dsimp only
    rw [hrun', Reader.advance_advance, List.length_append]
  · by_cases hp : p
    · obtain ⟨a, told, ha, hrun⟩ := h.answers hp r hr hfirst events
      rw [hrun]
      exact (h' a ha).fails (fun hq => hnot ⟨hp, hq⟩) _ (hr.advance hfirst.length_le) hbehind told
    · obtain ⟨s, hrun⟩ := h.fails hp r hr hfirst events
      rw [hrun]
      exact ⟨s, rfl⟩

/-- What is read first has no condition. -/
lemma behind (h : Parses m bs a) (h' : Guarded limits p (next a) bs' good') :
    Guarded limits p (m >>= next) (bs ++ bs') good' := by
  have hfirst : Guarded limits True m bs (· = a) := of_parses h trivial rfl
  refine (hfirst.bind fun b hb => ?_).congr (iff_of_eq (true_and p))
  rw [hb]
  exact h'

/-- What follows takes no more bytes. -/
lemma after (h : Guarded limits p m bs good)
    (hnext : ∀ a, good a → ∃ b, Parses (next a) [] b ∧ good' b) :
    Guarded limits p (m >>= next) bs good' := by
  have hboth : Guarded limits (p ∧ True) (m >>= next) (bs ++ []) good' := by
    refine h.bind fun a ha => ?_
    obtain ⟨b, hparses, hb⟩ := hnext a ha
    exact of_parses hparses trivial hb
  rw [List.append_nil] at hboth
  exact hboth.congr (iff_of_eq (and_true p))

/-- An answer that is changed after it was read. -/
lemma map (f : α → β) (h : Guarded limits p m bs good) (hgood : ∀ a, good a → good' (f a)) :
    Guarded limits p (m >>= fun a => Pure.pure (f a)) bs good' :=
  h.after fun a ha => ⟨f a, Parses.pure (f a), hgood a ha⟩

/-- The items of a list are read if the conditions of all of them hold. -/
lemma times {ι : Type} {fits : ι → Prop} {items : List ι}
    (h : Concat (fun i bs => Guarded limits (fits i) m bs good) items bs) :
    Guarded limits (∀ i ∈ items, fits i) (times items.length m) bs fun _ => True := by
  have hgo : ∀ done, Guarded limits (∀ i ∈ items, fits i)
      (Decode.times.go m items.length done) bs fun _ => True := by
    induction h with
    | nil =>
      exact fun done => of_parses (Parses.pure done.reverse)
        (fun i hi => absurd hi List.not_mem_nil) trivial
    | cons hitem hrest ih =>
      intro done
      rw [List.length_cons, times_go_succ]
      exact (hitem.bind fun a _ => ih (a :: done)).congr List.forall_mem_cons.symm
  exact hgo []

/-- A block that reads the whole of its frame. -/
lemma framed (h : Guarded limits p m bs good) :
    Guarded limits p (framed bs.length m) bs good := by
  refine ⟨fun hp r hr hfront events => ?_, fun hp r hr hfront events => ?_⟩
  all_goals
    have hlength := hfront.length_le
    have hsound := hr.narrow hlength
    have hinside := Reader.prefix_narrow hr hfront
    unfold Decode.framed
    simp only [bind_apply, position, within_narrow m hr hlength]
  · obtain ⟨a, told, ha, hrun⟩ := h.answers hp _ hsound hinside events
    refine ⟨a, told, ha, ?_⟩
    rw [hrun]
    dsimp only
    rw [Reader.advance_bytes, Reader.narrow_bytes, seek_apply hr hlength _ rfl]
    rfl
  · obtain ⟨s, hrun⟩ := h.fails hp _ hsound hinside events
    rw [hrun]
    exact ⟨_, rfl⟩

end Guarded

end Decode

namespace Encode

variable {α β : Type} {limits : Limits} {p q : Prop} {write write' : Encode Unit}

/-! ## Writing what is read under a condition -/

/-- What a step inside a payload appends is read from the payload. -/
lemma Clean.payload {step : Write FieldError Unit} {read : Read FieldError α} {a : α}
    (h : Write.Mirrors step read a) :
    Clean (payload step) fun bs => Decode.Parses (Decode.payload read) bs a := by
  obtain ⟨result, hemits, hparses⟩ := h
  have hstep := Emits.onWriter CodecError.field hemits
  cases result with
  | error e => exact .of_error hstep
  | ok bs => exact .of_emits hstep fun _ => .onReader CodecError.field (hparses bs rfl)

/-- A computation that, where it tells nothing, appends bytes that another one reads exactly if a
condition holds, unless these are more bytes than an object may have. -/
def ReadsIf (limits : Limits) (p : Prop) (write : Encode Unit) (read : Decode α)
    (good : α → Prop) : Prop :=
  Clean write fun bs => bs.length ≤ 8 + limits.maxObjectBytes → Decode.Guarded limits p read bs good

namespace ReadsIf

variable {read : Decode α} {next : α → Decode β} {good : α → Prop} {good' : β → Prop} {a : α}

/-- A condition may be put in other words. -/
lemma congr (h : ReadsIf limits p write read good) (hpq : p ↔ q) :
    ReadsIf limits q write read good :=
  Clean.mono h fun _ hread hlength => (hread hlength).congr hpq

/-- What is written first has no condition. -/
lemma behind (h : Clean write fun bs => Decode.Parses read bs a)
    (h' : ReadsIf limits p write' (next a) good') :
    ReadsIf limits p (write >>= fun _ => write') (read >>= next) good' := by
  refine (Clean.bind h h').mono ?_
  rintro _ ⟨front, back, rfl, hfront, hback⟩ hlength
  rw [List.length_append] at hlength
  exact .behind hfront (hback (by omega))

/-- An answer that is changed after it was read. -/
lemma map (f : α → β) (h : ReadsIf limits p write read good) (hgood : ∀ a, good a → good' (f a)) :
    ReadsIf limits p write (read >>= fun a => Pure.pure (f a)) good' :=
  Clean.mono h fun _ hread hlength => (hread hlength).map f hgood

/-- The items of a list are read if the conditions of all of them hold. -/
lemma each {ι : Type} {fits : ι → Prop} {write : ι → Encode Unit} {items : List ι}
    (h : ∀ i ∈ items, ReadsIf limits (fits i) (write i) read good) :
    ReadsIf limits (∀ i ∈ items, fits i) (each write items)
      (Decode.times items.length read) fun _ => True :=
  (Clean.each h).mono fun _ hconcat hlength => .times (hconcat.bounded hlength)

/-- A counted collection whose payload is not null. -/
lemma counted {ι : Type} {fits : ι → Prop} {write : ι → Encode Unit} {items : List ι}
    (hcount : items.length ≤ limits.maxElements)
    (h : ∀ i ∈ items, ReadsIf limits (fits i) (write i) read good) :
    ReadsIf limits (∀ i ∈ items, fits i)
      (payload (liftM (Write.length items.length)) >>= fun _ => Encode.each write items)
      (Decode.counted limits read) fun _ => True :=
  behind (Clean.payload (Write.Mirrors.count hcount)) (each h)

variable {nested : ObjectWriter} {reader : ObjectReader} {type : String} {o : Object}
  {fits : Object → Prop}

/-- An object behind a word with its size. -/
lemma element (h : ReadsIf limits p (nested type o) (reader type) fun _ => True)
    (hbytes : Clean (nested type o) fun bs => bs ≠ []) :
    ReadsIf limits p (element nested type o) (Decode.element reader type) fun a => a.isSome := by
  refine (Steady.element (Clean.and h hbytes)).mono ?_
  rintro _ told ⟨bs, rfl, hlt, hform⟩ htold hlength
  obtain ⟨hread, hne⟩ := hform htold
  rw [List.length_append] at hlength
  have hsize : (UInt32.ofNat bs.length).toNat = bs.length := UInt32.toNat_ofNat_of_lt' hlt
  have hzero : UInt32.ofNat bs.length ≠ 0 := by
    intro hzero
    rw [hzero] at hsize
    exact hne (List.eq_nil_of_length_eq_zero hsize.symm)
  rw [Decode.element_eq]
  refine .behind (Decode.Parses.onReader CodecError.field
    ((Read.Parses.u32 bs.length).mapError FieldError.buffer)) ?_
  rw [if_neg hzero, hsize]
  exact (hread (by omega)).framed.map some fun _ _ => rfl

/-- An object that may be missing from an array. -/
lemma elementOrNull {item : Option Object}
    (h : ∀ o ∈ item, ReadsIf limits (fits o) (nested type o) (reader type) fun _ => True)
    (hbytes : ∀ o, Clean (nested type o) fun bs => bs ≠ []) :
    ReadsIf limits (∀ o ∈ item, fits o) (elementOrNull nested type item)
      (Decode.element reader type) fun _ => True := by
  cases item with
  | some o =>
    refine Clean.mono (element (h o rfl) (hbytes o)) fun bs hread hlength => ?_
    have hitem : fits o ↔ ∀ o' ∈ some o, fits o' := by simp
    exact ((hread hlength).mono fun _ _ => trivial).congr hitem
  | none =>
    have hword : Clean (Encode.payload (Write.i32 0)) fun bs =>
        Decode.Parses (Decode.payload (liftM Read.u32)) bs 0 :=
      Clean.payload (.of_emits (Write.Emits.raw _) ((Read.Parses.u32 0).mapError FieldError.buffer))
    refine hword.mono fun bs hparses _ => ?_
    have hnone : Decode.Parses (Decode.element reader type) bs none :=
      hparses.after (Decode.Parses.pure none)
    exact .of_parses hnone nofun trivial

/-- An object as a generic value, under any name. -/
lemma tagged (name : String)
    (h : ReadsIf limits p (nested type o) (reader type) fun _ => True) :
    ReadsIf limits p (tagged nested type name o) (Decode.tagged reader type) fun a => a.isSome := by
  have htag : Write.Mirrors (Write.i32 ValueTag.parcelable.code : Write FieldError Unit)
      (do ValueTag.parse (← Read.i32) : Read FieldError ValueTag) .parcelable :=
    .after (.of_emits (Write.Emits.raw _)
      ((Read.Parses.int32 ValueTag.parcelable.code).mapError FieldError.buffer))
      (Read.Parses.parseTag .parcelable)
  rw [tagged_eq]
  refine behind (Clean.payload htag) ?_
  exact behind (Clean.payload (.lift (.string16 name))) (h.map some fun _ _ => rfl)

/-- An object that must not be missing. -/
lemma required {read : Decode (Option Object)}
    (h : ReadsIf limits p write read fun a => a.isSome) :
    ReadsIf limits p write (Decode.required read) fun _ => True := by
  refine Clean.mono h fun bs hread hlength => (hread hlength).after fun a ha => ?_
  obtain ⟨o, rfl⟩ := Option.isSome_iff_exists.mp ha
  exact ⟨o, Decode.Parses.pure o, trivial⟩

end ReadsIf

end Encode

end TaggedParcel
