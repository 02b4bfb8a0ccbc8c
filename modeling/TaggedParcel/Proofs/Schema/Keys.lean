import TaggedParcel.Proofs.Schema.Payload
import TaggedParcel.Proofs.Value.DepthLaw

set_option relaxedAutoImplicit false
set_option autoImplicit false

/-!
# Keys that can be read back

A key is written as a generic value, from which another key may be made. Whatever is read behind
it can be reached only if the key itself can be read.

## Main definitions

* `Write.Mirrors` — a step that fails, or appends bytes from which another one reads an answer.
* `ElementKind.Returns` — keys that can be read back.

## Main results

* `Write.Mirrors.bind`, `Write.Mirrors.string16`, `Write.Mirrors.count` — such steps compose.
* `Value.sized_of_write` — a value in which none nests is written only if its lengths fit.
* `ElementKind.Returns.mirrors` — a key is read back, perhaps as another one.
-/

namespace TaggedParcel

/-! ## Steps that are read back -/

namespace Write

variable {ε ε' α β : Type}

/-- A step that fails, or appends bytes from which another one reads an answer. -/
def Mirrors (write : Write ε Unit) (read : Read ε' α) (a : α) : Prop :=
  ∃ result, Emits write result ∧ ∀ bs, result = .ok bs → Read.Parses read bs a

namespace Mirrors

variable {write write' : Write ε Unit} {read : Read ε' α} {next : α → Read ε' β} {a : α} {b : β}
  {limits : Limits}

/-- What emits bytes is mirrored by a step that takes them. -/
lemma of_emits {bs : List UInt8} (h : Emits write (.ok bs)) (hread : Read.Parses read bs a) :
    Mirrors write read a :=
  ⟨.ok bs, h, fun _ hbs => by
    cases hbs
    exact hread⟩

/-- What fails is mirrored by anything. -/
lemma of_error {e : ε} (h : Emits write (.error e)) : Mirrors write read a :=
  ⟨.error e, h, fun _ hbs => nomatch hbs⟩

/-- Renaming failures on both sides keeps a mirror. -/
lemma mapError {ε₁ ε₁' : Type} (f : ε → ε₁) (g : ε' → ε₁') (h : Mirrors write read a) :
    Mirrors (Write.mapError f write) (Read.mapError g read) a := by
  obtain ⟨result, hemits, hparses⟩ := h
  have hmap := hemits.mapError f
  cases result with
  | error e => exact of_error hmap
  | ok bs => exact of_emits hmap ((hparses bs rfl).mapError g)

/-- Two mirrors are one, one behind the other. -/
lemma bind (h : Mirrors write read a) (h' : Mirrors write' (next a) b) :
    Mirrors (write >>= fun _ => write') (read >>= next) b := by
  obtain ⟨result, hemits, hparses⟩ := h
  cases result with
  | error e => exact of_error (hemits.bind_error _)
  | ok bs =>
    obtain ⟨result', hemits', hparses'⟩ := h'
    have hboth := hemits.bind hemits'
    cases result' with
    | error e => exact of_error hboth
    | ok bs' => exact of_emits hboth ((hparses bs rfl).bind (hparses' bs' rfl))

/-- What follows takes no more bytes. -/
lemma after (h : Mirrors write read a) (hnext : Read.Parses (next a) [] b) :
    Mirrors write (read >>= next) b := by
  obtain ⟨result, hemits, hparses⟩ := h
  exact ⟨result, hemits, fun bs hbs => (hparses bs hbs).after hnext⟩

/-- Steps of the buffer layer inside a payload. -/
lemma lift {write : Write BufferError Unit} {read : Read BufferError α}
    (h : Mirrors write read a) :
    Mirrors (liftM write : Write FieldError Unit) (liftM read : Read FieldError α) a :=
  h.mapError FieldError.buffer FieldError.buffer

/-- A length is mirrored, because it fails if it does not fit its word. -/
lemma length (n : Nat) : Mirrors (length n) Read.length (some n) := by
  by_cases h : n ≤ maxLength
  · exact of_emits (Emits.length h) ((Read.Parses.i32 n).length h)
  · have hfails : Emits (Write.length n) (.error (.lengthOverflow n)) := by
      rw [Write.length, if_neg h]
      exact Emits.throw _
    exact of_error hfails

/-- A count that is no greater than the limit. -/
lemma count {n : Nat} (h : n ≤ limits.maxElements) :
    Mirrors (liftM (Write.length n) : Write FieldError Unit) (Read.count limits) (some n) :=
  (lift (length n)).after ((Read.Parses.checkElements h).after (Read.Parses.pure _))

/-- A text is mirrored, because it fails if it does not fit its word. -/
lemma string16 (text : String) : Mirrors (string16 text) Read.string16 (some text) := by
  rw [string16_eq]
  exact (length (unitCount text)).bind (of_emits (Emits.raw _) (Read.Parses.textBody text))

end Mirrors

end Write

/-! ## Keys -/

namespace Write

variable {α : Type} {w w' : Writer}

/-- A length that is written fits its word. -/
lemma length_ok {n : Nat} (h : length n w = .ok () w') : n ≤ maxLength := by
  unfold length at h
  split at h
  case isTrue hfits => exact hfits
  case isFalse => cases h

/-- A payload behind a length is written only if the length fits its word. -/
lemma length_bind_ok {n : Nat} {next : Unit → Write FieldError Unit}
    (h : ((liftM (length n) : Write FieldError Unit) >>= next) w = .ok () w') : n ≤ maxLength := by
  obtain ⟨_, w₁, hlength, -⟩ := bind_ok h
  exact length_ok (mapError_ok hlength)

/-- A text that is written fits its length word. -/
lemma string16_ok {text : String}
    (h : (liftM (string16 text) : Write FieldError Unit) w = .ok () w') : Value.TextFits text := by
  have hwrite := mapError_ok h
  rw [string16_eq] at hwrite
  obtain ⟨_, w₁, hlength, -⟩ := bind_ok hwrite
  exact length_ok hlength

/-- Where the items of a list are written, each of them is. -/
lemma each_ok {write : α → Write FieldError Unit} {items : List α}
    (h : each write items w = .ok () w') : ∀ a ∈ items, ∃ w₁ w₂, write a w₁ = .ok () w₂ := by
  induction items generalizing w with
  | nil => exact fun a ha => absurd ha List.not_mem_nil
  | cons a rest ih =>
    rw [each_cons] at h
    obtain ⟨_, w₁, hfirst, hrest⟩ := bind_ok h
    exact List.forall_mem_cons.mpr ⟨⟨w, w₁, hfirst⟩, ih hrest⟩

end Write

/-- A value in which none nests has lengths that fit their words if it is written. -/
lemma Value.sized_of_write {v : Value} (hflat : v.depth = 0) {level maxDepth : Nat}
    {w w' : Writer} (h : v.write level maxDepth w = .ok () w') : v.Sized := by
  unfold Value.write at h
  rw [writeWithin_eq] at h
  obtain ⟨_, w₁, -, hpayload⟩ := bind_ok h
  cases v with
  | list | map | bundle => cases hflat
  | string text => exact .mk (Write.string16_ok hpayload) nofun
  | byteArray bytes =>
    have hwrite := Write.mapError_ok hpayload
    obtain ⟨_, w₂, hlength, -⟩ := bind_ok hwrite
    exact .mk (Write.length_ok hlength) nofun
  | stringArray items =>
    obtain ⟨_, w₂, -, hitems⟩ := bind_ok hpayload
    refine .mk ⟨Write.length_bind_ok hpayload, fun text htext => ?_⟩ nofun
    obtain ⟨w₃, w₄, hwrite⟩ := Write.each_ok hitems text htext
    exact Write.string16_ok hwrite
  | intArray items => exact .mk (Write.length_bind_ok hpayload) nofun
  | longArray items => exact .mk (Write.length_bind_ok hpayload) nofun
  | _ => exact .mk trivial nofun

/-- A key that can be read back under some limits: what is written for it counts no more than the
limits allow and nests no deeper, and from it there is a key again. If values nest in it, their
lengths fit their words. -/
structure ElementKind.Returns (limits : Limits) (kind : ElementKind) (v : Value) : Prop where
  /-- Nothing in it counts too much. -/
  fits : (kind.toValue v).Fits limits
  /-- It does not nest too deep. -/
  shallow : (kind.toValue v).depth ≤ limits.maxDepth
  /-- There is a key for what was written. -/
  accepted : ∃ key, kind.ofValue (kind.toValue v) = .ok key
  /-- Its lengths fit their words. -/
  sized : (kind.toValue v).depth ≠ 0 → (kind.toValue v).Sized

/-- A key in which no values nest is read back if it is carried as itself. -/
lemma ElementKind.Returns.of_holds {limits : Limits} {kind : ElementKind} {v : Value}
    (hown : kind.Own) (hflat : v.depth = 0) (h : kind.Holds limits v) : kind.Returns limits v := by
  rw [← hown.toValue v] at hflat
  refine ⟨?_, hflat ▸ Nat.zero_le _, ⟨v, ?_⟩, fun hdeep => absurd hflat hdeep⟩
  · rw [hown.toValue]
    exact h.fits
  · rw [hown.toValue]
    exact h.ofKind

/-- A key is read back, perhaps as another one. -/
lemma ElementKind.Returns.mirrors {limits : Limits} {kind : ElementKind} {v : Value}
    (h : kind.Returns limits v) (level maxDepth : Nat) :
    ∃ key, Write.Mirrors ((kind.toValue v).write level maxDepth) (Read.element kind limits)
      key := by
  obtain ⟨key, hkey⟩ := h.accepted
  obtain ⟨result, hemits, -⟩ := Write.Steady.value level maxDepth (kind.toValue v)
  refine ⟨key, ?_⟩
  cases result with
  | error e => exact .of_error hemits
  | ok bs =>
    have hsized : (kind.toValue v).Sized := by
      by_cases hflat : (kind.toValue v).depth = 0
      · exact Value.sized_of_write hflat (hemits .empty)
      · exact h.sized hflat
    have hguarded := Value.writeWithin_guarded maxDepth hsized (maxDepth - level)
    have hbs : bs = (kind.toValue v).encoding := by
      by_cases hroom : (kind.toValue v).depth ≤ maxDepth - level
      · injection hemits.unique (hguarded.emits hroom)
      · cases hemits.unique (hguarded.fails hroom)
    have hread := (Value.readWithin_guarded hsized h.fits limits.maxDepth).parses h.shallow
    refine .of_emits hemits ?_
    rw [hbs]
    refine hread.after ?_
    rw [hkey]
    exact Read.Parses.pure key

end TaggedParcel
