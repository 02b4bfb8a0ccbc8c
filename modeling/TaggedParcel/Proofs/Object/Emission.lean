import TaggedParcel.Proofs.Object.Pairing
import TaggedParcel.Proofs.Value.Emission

set_option relaxedAutoImplicit false
set_option autoImplicit false

/-!
# What writing objects appends

A computation that writes objects does not look at what was written or told before: it appends
the same bytes and tells the same wherever it starts, or it fails in the same way. Sizes that are
known only afterwards and fields that are taken back are no exception, since both are found from
the position at which they began.

## Main definitions

* `Encode.Emits` — what a computation appends and tells, wherever it starts.
* `Encode.Steady` — computations that append bytes of a certain form wherever they start.
* `Pieces` — payloads of whole words in which certain objects stand.
* `Encode.Assembles` — computations that append such payloads.

## Main results

* `Encode.Emits.extent` — what stands behind a reserved word, and its size in the word.
* `Encode.Steady.orOmit` — a field that cannot be written leaves nothing but a report.
* `Encode.Assembles.bind`, `Encode.Assembles.each` — payloads are put together as the
  computations are.
* `Encode.Assembles.element`, `Encode.Assembles.tagged` — objects in collections.
-/

namespace TaggedParcel

namespace Encode

variable {α : Type}

/-- What a computation appends and tells, wherever it starts: these bytes, or some bytes before it
fails. -/
def Emits (write : Encode Unit) (told : Report) : Except CodecError (List UInt8) → Prop
  | .ok bs => ∀ w events, write ⟨w, events⟩ = .ok () ⟨w.append bs, told.reverse ++ events⟩
  | .error e => ∀ w events, ∃ bs,
    write ⟨w, events⟩ = .error e ⟨w.append bs, told.reverse ++ events⟩

namespace Emits

variable {write write' : Encode Unit} {told told' : Report} {bs : List UInt8}
  {result : Except CodecError (List UInt8)}

/-- Doing nothing emits nothing and tells nothing. -/
lemma pure : Emits (Pure.pure ()) [] (.ok []) := by
  intro w events
  rw [Writer.append_nil]
  rfl

/-- Failing at once emits the failure. -/
lemma throw (e : CodecError) : Emits (MonadExcept.throw e) [] (.error e) := by
  intro w events
  refine ⟨[], ?_⟩
  rw [Writer.append_nil]
  rfl

/-- A step on the writer tells nothing. -/
lemma onWriter {ε : Type} (rename : ε → CodecError) {step : Write ε Unit}
    {result : Except ε (List UInt8)} (h : Write.Emits step result) :
    Emits (onWriter rename step) [] (result.mapError rename) := by
  cases result with
  | ok bs =>
    intro w events
    simp only [Encode.onWriter, h w]
    rfl
  | error e =>
    intro w events
    obtain ⟨bs, hrun⟩ := h w
    refine ⟨bs, ?_⟩
    simp only [Encode.onWriter, hrun]
    rfl

/-- Computations one after another append and tell one after another. -/
lemma bind (h : Emits write told (.ok bs)) (h' : Emits write' told' result) :
    Emits (write >>= fun _ => write') (told ++ told') (result.map fun bs' => bs ++ bs') := by
  have hevents : ∀ events : List Diagnostic,
      told'.reverse ++ (told.reverse ++ events) = (told ++ told').reverse ++ events := by
    intro events
    rw [List.reverse_append, List.append_assoc]
  cases result with
  | ok bs' =>
    intro w events
    rw [bind_apply, h w events]
    dsimp only
    rw [h' _ _, Writer.append_append, hevents]
  | error e =>
    intro w events
    obtain ⟨bs', hrun⟩ := h' (w.append bs) (told.reverse ++ events)
    refine ⟨bs ++ bs', ?_⟩
    rw [bind_apply, h w events]
    dsimp only
    rw [hrun, Writer.append_append, hevents]

/-- What comes behind a failing computation does not matter. -/
lemma bind_error {e : CodecError} (h : Emits write told (.error e)) (next : Unit → Encode Unit) :
    Emits (write >>= next) told (.error e) := by
  intro w events
  obtain ⟨bs, hrun⟩ := h w events
  refine ⟨bs, ?_⟩
  rw [bind_apply, hrun]

section Omission

variable {type : String} {field : FieldDescriptor} {e : CodecError}

/-- A field that is written stays. -/
lemma orOmit_written (h : Emits write told (.ok bs)) :
    Emits (orOmit type field write) told (.ok bs) := by
  intro w events
  simp only [orOmit, Bind.bind, EStateM.bind, position, h w events]

/-- A fatal failure in a field is a failure of the whole. -/
lemma orOmit_fatal (h : Emits write told (.error e)) (hfatal : e.isFatal = true) :
    Emits (orOmit type field write) told (.error e) := by
  intro w events
  obtain ⟨bs, hrun⟩ := h w events
  refine ⟨bs, ?_⟩
  simp only [orOmit, Bind.bind, EStateM.bind, position, hrun, if_pos hfatal]

/-- After any other failure the field is taken back, and what the objects in it told stays. -/
lemma orOmit_omitted (h : Emits write told (.error e)) (hmild : e.isFatal = false) :
    Emits (orOmit type field write)
      (told ++ [.fieldOmitted type field.name field.id e.message]) (.ok []) := by
  intro w events
  obtain ⟨bs, hrun⟩ := h w events
  simp [orOmit, Bind.bind, EStateM.bind, position, hrun, hmild, Writer.truncate_append,
    Writer.append_nil]

end Omission

/-- Without the schema of a type, what needs it fails. -/
lemma schema_missing {env : Environment} {type : String} {e : SchemaError}
    (hmissing : env.schemaOf type = .error e) (next : Schema → Encode Unit) :
    Emits (schema env type >>= next) [] (.error (.schema e)) := by
  unfold Encode.schema
  rw [hmissing]
  intro w events
  refine ⟨[], ?_⟩
  rw [Writer.append_nil]
  rfl

/-- A computation fails in one way only, and not where it succeeds. -/
lemma error_unique {e e' : CodecError} (h : Emits write told (.error e))
    (h' : Emits write told' (.error e')) : e = e' := by
  obtain ⟨bs, hrun⟩ := h .empty []
  obtain ⟨bs', hrun'⟩ := h' .empty []
  rw [hrun'] at hrun
  injection hrun with hfailure _
  exact hfailure.symm

/-- A computation succeeds in one way only. -/
lemma ok_unique {bs' : List UInt8} (h : Emits write told (.ok bs))
    (h' : Emits write told' (.ok bs')) : told = told' ∧ bs = bs' := by
  have hrun := (h .empty []).symm.trans (h' .empty [])
  injection hrun with _ hstate
  injection hstate with hwriter hevents
  rw [List.append_nil, List.append_nil, List.reverse_inj] at hevents
  exact ⟨hevents, Writer.append_inj hwriter⟩

end Emits

/-! ## Sizes that are known afterwards -/

/-- Some bytes, and behind them others with their size in front, unless it does not fit. -/
def sized (overflow : BufferError → CodecError) (front body : List UInt8) :
    Except CodecError (List UInt8) :=
  if body.length < UInt32.size then
    .ok (front ++ (LittleEndian.digits 4 body.length ++ body))
  else
    .error (overflow (.lengthOverflow body.length))

/-- A reserved word gets the number of bytes behind it. -/
lemma closeExtent_apply {ε : Type} (rename : ε → CodecError) (f : BufferError → ε) (w : Writer)
    (bs : List UInt8) (events : List Diagnostic) :
    closeExtent rename f ⟨w.position⟩ ⟨w.append (LittleEndian.digits 4 0 ++ bs), events⟩ =
      if bs.length < UInt32.size then
        .ok () ⟨w.append (LittleEndian.digits 4 bs.length ++ bs), events⟩
      else
        .error (rename (f (.lengthOverflow bs.length)))
          ⟨w.append (LittleEndian.digits 4 0 ++ bs), events⟩ := by
  have hsize : (w.append (LittleEndian.digits 4 0 ++ bs)).position - (Slot.mk w.position).stop =
      bs.length := by
    rw [Writer.position_append, List.length_append, LittleEndian.length_digits, Slot.stop]
    dsimp only
    omega
  simp only [closeExtent, Encode.onWriter]
  rw [bind_apply]
  dsimp only [Write.position]
  rw [hsize, Write.mapError, Write.patchSize_apply]
  by_cases hlt : bs.length < UInt32.size
  · rw [if_pos hlt, if_pos hlt]
  · rw [if_neg hlt, if_neg hlt]

/-- What is written behind a reserved word stays as it is, and the word becomes its size. -/
lemma Emits.extent {ε : Type} {rename : ε → CodecError} {f : BufferError → ε}
    {write body : Encode Unit} {front : List UInt8}
    (hwrite : ∀ w events, write ⟨w, events⟩ =
      (body >>= fun _ => closeExtent rename f ⟨(w.append front).position⟩)
        ⟨(w.append front).append (LittleEndian.digits 4 0), events⟩)
    {told : Report} {result : Except CodecError (List UInt8)} (h : Emits body told result) :
    Emits write told (result.bind (sized (fun e => rename (f e)) front)) := by
  cases result with
  | error e =>
    intro w events
    obtain ⟨bs, hrun⟩ := h ((w.append front).append (LittleEndian.digits 4 0)) events
    rw [hwrite, bind_apply, hrun, Writer.append_append, Writer.append_append]
    exact ⟨_, rfl⟩
  | ok bs =>
    have hrun : ∀ w events, write ⟨w, events⟩ =
        closeExtent rename f ⟨(w.append front).position⟩
          ⟨(w.append front).append (LittleEndian.digits 4 0 ++ bs), told.reverse ++ events⟩ := by
      intro w events
      rw [hwrite, bind_apply, h, Writer.append_append]
    by_cases hlt : bs.length < UInt32.size
    · simp only [Except.bind, sized, if_pos hlt]
      intro w events
      rw [hrun, closeExtent_apply, if_pos hlt, Writer.append_append]
    · simp only [Except.bind, sized, if_neg hlt]
      intro w events
      rw [hrun, closeExtent_apply, if_neg hlt, Writer.append_append]
      exact ⟨_, rfl⟩

/-- An object in a collection stands behind a reserved word. -/
lemma element_apply (nested : ObjectWriter) (type : String) (o : Object) (w : Writer)
    (events : List Diagnostic) :
    element nested type o ⟨w, events⟩ =
      (nested type o >>= fun _ => closeExtent CodecError.field FieldError.buffer
        ⟨(w.append []).position⟩) ⟨(w.append []).append (LittleEndian.digits 4 0), events⟩ := by
  rw [Writer.append_nil]
  rfl

/-! ## Steady computations -/

/-- A computation that appends the same bytes and tells the same wherever it starts, or fails in
the same way. Bytes and report have a certain form. -/
def Steady (write : Encode Unit) (form : List UInt8 → Report → Prop) : Prop :=
  ∃ told result, Emits write told result ∧ ∀ bs, result = .ok bs → form bs told

namespace Steady

variable {write write' : Encode Unit} {form form' : List UInt8 → Report → Prop}

/-- What emits bytes of a form is steady in that form. -/
lemma of_emits {told : Report} {bs : List UInt8} (h : Emits write told (.ok bs))
    (hform : form bs told) : Steady write form :=
  ⟨told, .ok bs, h, fun _ hbs => by
    cases hbs
    exact hform⟩

/-- A failing computation appends nothing that could have the wrong form. -/
lemma of_error {told : Report} {e : CodecError} (h : Emits write told (.error e)) :
    Steady write form :=
  ⟨told, .error e, h, fun _ hbs => nomatch hbs⟩

/-- What fails at once is steady in any form. -/
lemma throw (e : CodecError) : Steady (MonadExcept.throw e) form :=
  of_error (Emits.throw e)

/-- The form of what is written may be weakened. -/
lemma mono (h : Steady write form) (hform : ∀ bs told, form bs told → form' bs told) :
    Steady write form' := by
  obtain ⟨told, result, hemits, hresult⟩ := h
  exact ⟨told, result, hemits, fun bs hbs => hform bs told (hresult bs hbs)⟩

/-- Two forms of the same bytes and the same report. -/
lemma and (h : Steady write form) (h' : Steady write form') :
    Steady write fun bs told => form bs told ∧ form' bs told := by
  obtain ⟨told, result, hemits, hform⟩ := h
  obtain ⟨told', result', hemits', hform'⟩ := h'
  cases result with
  | error e => exact of_error hemits
  | ok bs =>
    cases result' with
    | error e => exact of_error hemits'
    | ok bs' =>
      obtain ⟨rfl, rfl⟩ := hemits.ok_unique hemits'
      exact of_emits hemits ⟨hform bs rfl, hform' bs rfl⟩

/-- What two steady steps write and tell stands one behind the other. -/
lemma bind (h : Steady write form) (h' : Steady write' form') :
    Steady (write >>= fun _ => write') fun bs told => ∃ bs₁ bs₂ told₁ told₂,
      bs = bs₁ ++ bs₂ ∧ told = told₁ ++ told₂ ∧ form bs₁ told₁ ∧ form' bs₂ told₂ := by
  obtain ⟨told, result, hemits, hform⟩ := h
  cases result with
  | error e => exact of_error (hemits.bind_error _)
  | ok bs =>
    obtain ⟨told', result', hemits', hform'⟩ := h'
    have hboth := hemits.bind hemits'
    cases result' with
    | error e => exact of_error hboth
    | ok bs' => exact of_emits hboth ⟨bs, bs', told, told', rfl, rfl, hform bs rfl, hform' bs' rfl⟩

/-- What needs the schema of a type. -/
lemma schema {env : Environment} {type : String} {write : Schema → Encode Unit}
    (h : ∀ found, env.schemaOf type = .ok found → Steady (write found) form) :
    Steady (schema env type >>= write) form := by
  cases hfound : env.schemaOf type with
  | ok found =>
    unfold Encode.schema
    rw [hfound]
    exact h found hfound
  | error e => exact of_error (Emits.schema_missing hfound write)

/-- Some bytes, and behind them what a body appends, with its size in front. -/
lemma extent {ε : Type} {rename : ε → CodecError} {f : BufferError → ε} {body : Encode Unit}
    {front : List UInt8}
    (hwrite : ∀ w events, write ⟨w, events⟩ =
      (body >>= fun _ => closeExtent rename f ⟨(w.append front).position⟩)
        ⟨(w.append front).append (LittleEndian.digits 4 0), events⟩)
    (h : Steady body form) :
    Steady write fun bs told => ∃ inner,
      bs = front ++ (LittleEndian.digits 4 inner.length ++ inner) ∧
        inner.length < UInt32.size ∧ form inner told := by
  obtain ⟨told, result, hemits, hform⟩ := h
  refine ⟨told, _, hemits.extent hwrite, fun bs hbs => ?_⟩
  cases result with
  | error e => cases hbs
  | ok inner =>
    simp only [Except.bind, sized] at hbs
    split at hbs
    case isTrue hlt =>
      cases hbs
      exact ⟨inner, rfl, hlt, hform inner rfl⟩
    case isFalse => cases hbs

/-- An object behind a word with its size. -/
lemma element {nested : ObjectWriter} {type : String} {o : Object}
    (h : Steady (nested type o) form) :
    Steady (element nested type o) fun bs told => ∃ inner,
      bs = LittleEndian.digits 4 inner.length ++ inner ∧
        inner.length < UInt32.size ∧ form inner told :=
  extent (element_apply nested type o) h

/-- A field that cannot be written leaves nothing but what its objects told, and the report that
it was left out. -/
lemma orOmit (type : String) (field : FieldDescriptor) (h : Steady write form) :
    Steady (orOmit type field write) fun bs told => form bs told ∨
      ∃ inner e, Emits write inner (.error e) ∧ e.isFatal = false ∧ bs = [] ∧
        told = inner ++ [.fieldOmitted type field.name field.id e.message] := by
  obtain ⟨told, result, hemits, hform⟩ := h
  cases result with
  | ok bs => exact of_emits hemits.orOmit_written (.inl (hform bs rfl))
  | error e =>
    cases hfatal : e.isFatal with
    | true => exact of_error (hemits.orOmit_fatal hfatal)
    | false =>
      exact of_emits (hemits.orOmit_omitted hfatal) (.inr ⟨told, e, hemits, hfatal, rfl, rfl⟩)

end Steady

end Encode

/-! ## Payloads with objects -/

/-- A payload at an offset: whole words, and between them certain objects in order, each with
bytes and a report as `frame` says. -/
inductive Pieces (frame : Nat → Object → List UInt8 → Report → Prop) :
    Nat → List Object → List UInt8 → Report → Prop where
  /-- There is nothing more. -/
  | nil {start : Nat} : Pieces frame start [] [] []
  /-- First come whole words. -/
  | words {start : Nat} {objects : List Object} {bs bs' : List UInt8} {told : Report}
    (hwords : 4 ∣ bs.length) (hrest : Pieces frame (start + bs.length) objects bs' told) :
    Pieces frame start objects (bs ++ bs') told
  /-- First comes an object. -/
  | object {start : Nat} {o : Object} {objects : List Object} {bs bs' : List UInt8}
    {inner told : Report} (hobject : frame start o bs inner)
    (hrest : Pieces frame (start + bs.length) objects bs' told) :
    Pieces frame start (o :: objects) (bs ++ bs') (inner ++ told)

namespace Pieces

variable {frame frame' : Nat → Object → List UInt8 → Report → Prop} {start : Nat}
  {objects objects' : List Object} {bs bs' : List UInt8} {told told' : Report}

/-- Payloads one after another. -/
lemma append (h : Pieces frame start objects bs told)
    (h' : Pieces frame (start + bs.length) objects' bs' told') :
    Pieces frame start (objects ++ objects') (bs ++ bs') (told ++ told') := by
  induction h with
  | nil => exact h'
  | words hwords hrest ih =>
    rw [List.append_assoc]
    rw [List.length_append, ← Nat.add_assoc] at h'
    exact .words hwords (ih h')
  | object hobject hrest ih =>
    rw [List.append_assoc, List.append_assoc, List.cons_append]
    rw [List.length_append, ← Nat.add_assoc] at h'
    exact .object hobject (ih h')

/-- The objects may be described in another way. -/
lemma mono (h : Pieces frame start objects bs told)
    (hframe : ∀ o ∈ objects, ∀ start bs told, frame start o bs told → frame' start o bs told) :
    Pieces frame' start objects bs told := by
  induction h with
  | nil => exact .nil
  | words hwords hrest ih => exact .words hwords (ih hframe)
  | @object start o objects bs bs' inner told hobject hrest ih =>
    exact .object (hframe o List.mem_cons_self _ _ _ hobject)
      (ih fun o ho => hframe o (List.mem_cons_of_mem _ ho))

end Pieces

namespace Encode

variable {frame : Nat → Object → List UInt8 → Report → Prop} {least : Nat}

/-- A computation that appends whole words, at least so many, among them certain objects in
order. -/
def Assembles (frame : Nat → Object → List UInt8 → Report → Prop) (least : Nat)
    (write : Encode Unit) (objects : List Object) : Prop :=
  Steady write fun bs told => 4 ∣ bs.length ∧ least ≤ bs.length ∧
    ∀ start, 4 ∣ start → Pieces frame start objects bs told

namespace Assembles

variable {write write' : Encode Unit} {objects objects' : List Object}

/-- That there are enough bytes may be forgotten. -/
lemma weaken (h : Assembles frame least write objects) : Assembles frame 0 write objects :=
  h.mono fun _ _ hform => ⟨hform.1, Nat.zero_le _, hform.2.2⟩

/-- Doing nothing is no objects. -/
lemma pure : Assembles frame 0 (Pure.pure ()) [] :=
  .of_emits Emits.pure ⟨Nat.dvd_zero 4, Nat.zero_le _, fun _ _ => .nil⟩

/-- Objects that are written by two steps stand one behind the other. -/
lemma bind (h : Assembles frame least write objects) (h' : Assembles frame 0 write' objects') :
    Assembles frame least (write >>= fun _ => write') (objects ++ objects') := by
  refine (Steady.bind h h').mono ?_
  rintro _ _ ⟨bs, bs', told, told', rfl, rfl, ⟨hwords, hleast, hpieces⟩, hwords', -, hpieces'⟩
  rw [List.length_append]
  exact ⟨Nat.dvd_add hwords hwords', Nat.le_add_right_of_le hleast, fun start hstart =>
    (hpieces start hstart).append (hpieces' _ (Nat.dvd_add hstart hwords))⟩

/-- Objects that are written item by item stand one behind the other. -/
lemma each {α : Type} {write : α → Encode Unit} {inside : α → List Object} {items : List α}
    (h : ∀ a ∈ items, Assembles frame least (write a) (inside a)) :
    Assembles frame 0 (each write items) (items.flatMap inside) := by
  induction items with
  | nil => exact pure
  | cons a rest ih =>
    rw [each_cons, List.flatMap_cons]
    exact bind (h a List.mem_cons_self).weaken (ih fun b hb => h b (List.mem_cons_of_mem a hb))

/-- A step inside a payload writes no objects. -/
lemma payload {step : Write FieldError Unit} (h : Write.Steady least step) :
    Assembles frame least (payload step) [] := by
  obtain ⟨result, hemits, hform⟩ := h
  have hpayload := Emits.onWriter CodecError.field hemits
  cases result with
  | error e => exact .of_error hpayload
  | ok bs =>
    obtain ⟨hwords, hleast⟩ := hform bs rfl
    refine .of_emits hpayload ⟨hwords, hleast, fun start _ => ?_⟩
    have hpieces : Pieces frame start [] (bs ++ []) [] := .words hwords .nil
    rw [List.append_nil] at hpieces
    exact hpieces

variable {nested : ObjectWriter} {type : String} {o : Object}

/-- An object behind a word with its size. -/
lemma element (h : Assembles frame least (nested type o) [o]) :
    Assembles frame 4 (element nested type o) [o] := by
  refine (Steady.element h).mono ?_
  rintro _ told ⟨inner, rfl, -, hwords, -, hpieces⟩
  rw [List.length_append, LittleEndian.length_digits]
  refine ⟨Nat.dvd_add (Nat.dvd_refl 4) hwords, Nat.le_add_right _ _, fun start hstart => ?_⟩
  have hword : 4 ∣ (LittleEndian.digits 4 inner.length).length := by
    simp [LittleEndian.length_digits]
  exact .words hword (hpieces _ (Nat.dvd_add hstart hword))

/-- An object that may be missing from an array. -/
lemma elementOrNull {item : Option Object}
    (h : ∀ o ∈ item, Assembles frame least (nested type o) [o]) :
    Assembles frame 4 (elementOrNull nested type item) item.toList := by
  cases item with
  | some o => exact element (h o rfl)
  | none => exact payload (Write.Steady.i32 0)

/-- An object as a generic value. -/
lemma tagged (name : String) (h : Assembles frame least (nested type o) [o]) :
    Assembles frame 4 (tagged nested type name o) [o] := by
  have hfront : Write.Steady 4 (Write.i32 ValueTag.parcelable.code >>= fun _ =>
      liftM (Write.string16 name) : Write FieldError Unit) :=
    (Write.Steady.i32 _).bind (Write.Steady.lift (Write.Steady.string16 name)).weaken
  exact bind (payload hfront) h.weaken

end Assembles

end Encode

end TaggedParcel
