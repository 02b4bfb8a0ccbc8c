import TaggedParcel.Proofs.Object.FrameShape

set_option relaxedAutoImplicit false
set_option autoImplicit false

/-!
# Writing without a report

Where writing tells nothing, no field was left out. What is known of the bytes that a field would
take is then known of the bytes that were written.

## Main definitions

* `Concat` — items one behind the other, each as bytes of a certain form.
* `Encode.Clean` — computations that append bytes of a certain form where they tell nothing.

## Main results

* `Encode.Clean.bind`, `Encode.Clean.each` — such computations compose.
* `Encode.Clean.fields`, `Encode.Clean.encodeObject` — where nothing is told of an object, all its
  members were written.
* `Encode.Clean.of_encode` — what is known of an object that is written is true of its bytes.
-/

namespace TaggedParcel

/-- Items one behind the other, each as bytes of a certain form. -/
inductive Concat {α : Type} (form : α → List UInt8 → Prop) : List α → List UInt8 → Prop where
  /-- There are no items. -/
  | nil : Concat form [] []
  /-- An item stands in front of others. -/
  | cons {a : α} {rest : List α} {bs bs' : List UInt8} (hitem : form a bs)
    (hrest : Concat form rest bs') : Concat form (a :: rest) (bs ++ bs')

/-- Items may be described in another way. -/
lemma Concat.mono {α : Type} {form form' : α → List UInt8 → Prop} {items : List α}
    {bs : List UInt8} (h : Concat form items bs) (hform : ∀ a bs, form a bs → form' a bs) :
    Concat form' items bs := by
  induction h with
  | nil => exact .nil
  | cons hitem hrest ih => exact .cons (hform _ _ hitem) ih

/-- Items whose bytes are no more than a bound, where this is asked of all bytes together. -/
lemma Concat.bounded {α : Type} {form : α → List UInt8 → Prop} {n : Nat} {items : List α}
    {bs : List UInt8} (h : Concat (fun a bs => bs.length ≤ n → form a bs) items bs)
    (hlength : bs.length ≤ n) : Concat form items bs := by
  induction h with
  | nil => exact .nil
  | cons hitem hrest ih =>
    rw [List.length_append] at hlength
    exact .cons (hitem (by omega)) (ih (by omega))

/-- What the form of an item says of the item alone is true of every item. -/
lemma Concat.forall {α : Type} {p : α → Prop} {items : List α} {bs : List UInt8}
    (h : Concat (fun a _ => p a) items bs) : ∀ a ∈ items, p a := by
  induction h with
  | nil => exact fun a ha => absurd ha List.not_mem_nil
  | cons hitem hrest ih => exact List.forall_mem_cons.mpr ⟨hitem, ih⟩

namespace Encode

variable {write write' : Encode Unit} {form form' : List UInt8 → Prop}

/-- A computation that appends bytes of a certain form where it tells nothing. -/
def Clean (write : Encode Unit) (form : List UInt8 → Prop) : Prop :=
  Steady write fun bs told => told = [] → form bs

namespace Clean

/-- The form of what is written without a report may be weakened. -/
lemma mono (h : Clean write form) (hform : ∀ bs, form bs → form' bs) : Clean write form' :=
  Steady.mono h fun bs _ hclean htold => hform bs (hclean htold)

/-- What is steady in some form has without a report what the form says of an empty one. -/
lemma of_steady {full : List UInt8 → Report → Prop} (h : Steady write full)
    (hform : ∀ bs, full bs [] → form bs) : Clean write form :=
  h.mono fun bs _ hfull htold => hform bs (htold ▸ hfull)

/-- What fails at once writes nothing without a report. -/
lemma throw (e : CodecError) : Clean (MonadExcept.throw e) form :=
  Steady.throw e

/-- Two forms of the same bytes. -/
lemma and (h : Clean write form) (h' : Clean write form') :
    Clean write fun bs => form bs ∧ form' bs :=
  (Steady.and h h').mono fun _ _ hboth htold => ⟨hboth.1 htold, hboth.2 htold⟩

/-- What two steps write without a report stands one behind the other. -/
lemma bind (h : Clean write form) (h' : Clean write' form') :
    Clean (write >>= fun _ => write') fun bs => ∃ front back,
      bs = front ++ back ∧ form front ∧ form' back := by
  refine (Steady.bind h h').mono ?_
  rintro _ _ ⟨front, back, told, told', rfl, rfl, hfront, hback⟩ htold
  obtain ⟨hnone, hnone'⟩ := List.append_eq_nil_iff.mp htold
  exact ⟨front, back, rfl, hfront hnone, hback hnone'⟩

/-- What is written item by item without a report stands one behind the other. -/
lemma each {α : Type} {write : α → Encode Unit} {form : α → List UInt8 → Prop} {items : List α}
    (h : ∀ a ∈ items, Clean (write a) (form a)) : Clean (each write items) (Concat form items) := by
  induction items with
  | nil => exact .of_emits Emits.pure fun _ => .nil
  | cons a rest ih =>
    rw [each_cons]
    refine (bind (h a List.mem_cons_self) (ih fun b hb => h b (List.mem_cons_of_mem a hb))).mono ?_
    rintro _ ⟨front, back, rfl, hfront, hback⟩
    exact .cons hfront hback

/-- A field that was left out is told of. -/
lemma orOmit (type : String) (field : FieldDescriptor) (h : Clean write form) :
    Clean (orOmit type field write) form := by
  refine (Steady.orOmit type field h).mono ?_
  rintro bs told (hwritten | ⟨inner, e, -, -, -, rfl⟩) htold
  · exact hwritten htold
  · exact absurd htold (List.append_ne_nil_of_right_ne_nil _ (List.cons_ne_nil _ _))

/-- Where at least a word is written, there are some bytes. -/
lemma ne_nil {frame : Nat → Object → List UInt8 → Report → Prop} {objects : List Object}
    (h : Assembles frame 4 write objects) : Clean write fun bs => bs ≠ [] :=
  .of_steady h fun _ hform => List.ne_nil_of_length_pos (Nat.lt_of_lt_of_le (by decide) hform.2.1)

section Fields

variable {env : Environment} {nested : ObjectWriter} {o : Object}

/-- Where nothing is told of the fields of an object, there is a member for each, and it was
written. -/
lemma fields {type : String} {entries : List (FieldDescriptor × FieldKind)}
    {form : FieldDescriptor × FieldKind → Member → List UInt8 → Prop}
    (h : ∀ entry ∈ entries, ∀ m, o.get? entry.1.id = some m →
      Clean (field env nested type entry.1 entry.2 m) (form entry m)) :
    Clean (Encode.each (fun entry => Encode.orOmit type entry.1 (member env nested type o entry))
      entries)
      (Concat (fun entry bs => ∃ m, o.get? entry.1.id = some m ∧ form entry m bs) entries) := by
  refine each fun entry hentry => orOmit type entry.1 ?_
  unfold member
  cases hm : o.get? entry.1.id with
  | none => exact throw _
  | some m => exact (h entry hentry m hm).mono fun bs hbs => ⟨m, rfl, hbs⟩

/-- An object is a frame around what its fields append. -/
lemma objectFrame {schema : Schema} {form : List UInt8 → Prop}
    (h : Clean (Encode.each (fun entry => Encode.orOmit schema.name entry.1
      (member env nested schema.name o entry)) schema.entries) form) :
    Clean (objectFrame env nested schema o) fun bs => ∃ body,
      bs = FieldFormat.delimited.header objectMagic body.length ++ body ∧
        body.length < UInt32.size ∧ form body :=
  (objectFrame_steady h).mono fun _ _ ⟨body, hbs, hfits, hform⟩ htold =>
    ⟨body, by rw [hbs, FieldFormat.header, List.append_assoc], hfits, hform htold⟩

/-- With a level left, an object is a frame around its members. -/
lemma encodeObject {levels : Nat} {type : String} {schema : Schema}
    (hschema : env.schemaOf type = .ok schema)
    {form : FieldDescriptor × FieldKind → Member → List UInt8 → Prop}
    (h : ∀ entry ∈ schema.entries, ∀ m, o.get? entry.1.id = some m →
      Clean (field env (encodeObject env levels) schema.name entry.1 entry.2 m) (form entry m)) :
    Clean (encodeObject env (levels + 1) type o) fun bs => ∃ body,
      bs = FieldFormat.delimited.header objectMagic body.length ++ body ∧
        body.length < UInt32.size ∧
        Concat (fun entry bs => ∃ m, o.get? entry.1.id = some m ∧ form entry m bs)
          schema.entries body := by
  apply Steady.schema
  intro found hfound
  rw [hschema] at hfound
  cases hfound
  exact objectFrame (fields h)

end Fields

/-- What is known of an object that is written without a report is true of its bytes. -/
lemma of_encode {env : Environment} {type : String} {o : Object} {w : Writer}
    {form : List UInt8 → Prop} (h : Clean (TaggedParcel.encodeObject env encodeDepth type o) form)
    (hclean : encode env type o .empty = (.ok [], w)) : form w.bytes.toList := by
  obtain ⟨told, result, hemits, hform⟩ := h
  rw [encode_emits hemits .empty] at hclean
  cases result with
  | error e => cases hclean
  | ok bs =>
    obtain ⟨rfl, rfl⟩ := hclean
    rw [Writer.append_eq_toArray]
    exact hform bs rfl rfl

end Clean

end Encode

end TaggedParcel
