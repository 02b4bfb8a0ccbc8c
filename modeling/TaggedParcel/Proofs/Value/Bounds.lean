import TaggedParcel.Proofs.Buffer.Yield
import TaggedParcel.Proofs.Schema.Payload
import TaggedParcel.Proofs.Schema.Compile
import TaggedParcel.Proofs.Value.Encoding

set_option relaxedAutoImplicit false
set_option autoImplicit false

/-!
# What reading a value costs

Input from anywhere cannot make a reader build more than the limits allow, nor more than the input
pays for. A value that was read nests no deeper than there are levels left, its collections count
no more than the limit, and each value in it, however deep, took four bytes of the input or more.

## Main definitions

* `Sorted.weigh` — what the pairs of a list weigh.
* `Value.nodes` — how many values there are in a value.
* `Value.Bounded` — values within the limits that so many bytes pay for.

## Main results

* `Sorted.ascending_ofList`, `Sorted.weigh_ofList_le` — a map is in order, and weighs no more than
  the pairs that it was made from.
* `Read.Yields.bundleWith`, `Read.Yields.readWith` — bundles and values, one level at a time.
* `Value.read_bounded` — values, bundles, lists and maps that are read are bounded.
-/

namespace TaggedParcel

/-- What the pairs of a list weigh together. -/
def Sorted.weigh {κ α : Type} (weight : κ × α → Nat) : List (κ × α) → Nat
  | [] => 0
  | entry :: rest => weight entry + weigh weight rest

namespace Value

mutual

/-- How many values there are in a value, itself included. -/
def nodes : Value → Nat
  | .map entries => nodesOfPairs entries + 1
  | .bundle entries => nodesOfEntries entries + 1
  | .list items => nodesOfItems items + 1
  | _ => 1

/-- How many values there are in the items of a list. -/
def nodesOfItems : List Value → Nat
  | [] => 0
  | v :: rest => v.nodes + nodesOfItems rest

/-- How many values there are in the entries of a map. -/
def nodesOfPairs : List (Value × Value) → Nat
  | [] => 0
  | (k, v) :: rest => k.nodes + v.nodes + nodesOfPairs rest

/-- How many values there are in the entries of a bundle. -/
def nodesOfEntries : List (String × Value) → Nat
  | [] => 0
  | (_, v) :: rest => v.nodes + nodesOfEntries rest

end

/-- The keys and values of pairs. -/
def ofPairs (entries : List (Value × Value)) : List Value :=
  entries.flatMap fun entry => [entry.1, entry.2]

/-- The nodes of two lists of values add up. -/
lemma nodesOfItems_append (as bs : List Value) :
    nodesOfItems (as ++ bs) = nodesOfItems as + nodesOfItems bs := by
  induction as with
  | nil => exact (Nat.zero_add _).symm
  | cons v rest ih => rw [List.cons_append, nodesOfItems, nodesOfItems, ih, Nat.add_assoc]

/-- The nodes of pairs are those of their keys and values. -/
lemma nodesOfPairs_eq (entries : List (Value × Value)) :
    nodesOfPairs entries = nodesOfItems (ofPairs entries) := by
  induction entries with
  | nil => rfl
  | cons entry rest ih =>
    obtain ⟨k, v⟩ := entry
    rw [nodesOfPairs, ih, Nat.add_assoc]
    rfl

/-- The nodes of a bundle are those of its entries together. -/
lemma nodesOfEntries_eq (entries : Bundle) :
    nodesOfEntries entries = Sorted.weigh (fun entry => entry.2.nodes) entries := by
  induction entries with
  | nil => rfl
  | cons entry rest ih =>
    obtain ⟨key, v⟩ := entry
    rw [nodesOfEntries, ih, Sorted.weigh]

/-- The nodes of the values in a bundle are those of the bundle. -/
lemma nodesOfItems_map_snd (entries : Bundle) :
    nodesOfItems (entries.map Prod.snd) = nodesOfEntries entries := by
  induction entries with
  | nil => rfl
  | cons entry rest ih =>
    obtain ⟨key, v⟩ := entry
    rw [nodesOfEntries, List.map_cons, nodesOfItems, ih]

/-- The values in a value are counted besides the value itself. -/
lemma nodes_eq (v : Value) : v.nodes = nodesOfItems v.children + 1 := by
  cases v with
  | map entries => rw [nodes, nodesOfPairs_eq, children, ofPairs]
  | bundle entries => rw [nodes, children, nodesOfItems_map_snd]
  | _ => rfl

/-- Values at a level of nesting that keep within the limits, and for each of which, at whatever
depth, there are four bytes. -/
structure Bounded (limits : Limits) (level : Nat) (values : List Value) (bytes : Nat) : Prop where
  /-- No value nests deeper than the limit. -/
  depth_le : ∀ v ∈ values, level + v.depth ≤ limits.maxDepth
  /-- No collection counts more than the limit. -/
  fits : ∀ v ∈ values, v.Fits limits
  /-- Every value is paid for. -/
  nodes_le : 4 * nodesOfItems values ≤ bytes

namespace Bounded

variable {limits : Limits} {level : Nat}

/-- No values are bounded by no bytes. -/
lemma nil : Bounded limits level [] 0 where
  depth_le _ h := nomatch h
  fits _ h := nomatch h
  nodes_le := Nat.le_refl 0

/-- Values that are bounded by some bytes are bounded together by the bytes together. -/
lemma append {as bs : List Value} {m n : Nat} (has : Bounded limits level as m)
    (hbs : Bounded limits level bs n) : Bounded limits level (as ++ bs) (m + n) where
  depth_le := List.forall_mem_append.mpr ⟨has.depth_le, hbs.depth_le⟩
  fits := List.forall_mem_append.mpr ⟨has.fits, hbs.fits⟩
  nodes_le := by
    have hm := has.nodes_le
    have hn := hbs.nodes_le
    rw [nodesOfItems_append]
    omega

/-- More bytes pay for the same values. -/
lemma mono {values : List Value} {m n : Nat} (h : Bounded limits level values m) (hle : m ≤ n) :
    Bounded limits level values n :=
  ⟨h.depth_le, h.fits, Nat.le_trans h.nodes_le hle⟩

/-- A single value is bounded if it nests within the limit, fits, and takes enough bytes. -/
lemma singleton_iff {v : Value} {n : Nat} :
    Bounded limits level [v] n ↔
      level + v.depth ≤ limits.maxDepth ∧ v.Fits limits ∧ 4 * v.nodes ≤ n := by
  constructor
  · rintro ⟨hdepth, hfits, hnodes⟩
    exact ⟨hdepth v List.mem_cons_self, hfits v List.mem_cons_self, hnodes⟩
  · rintro ⟨hdepth, hfits, hnodes⟩
    exact ⟨List.forall_mem_singleton.mpr hdepth, List.forall_mem_singleton.mpr hfits, hnodes⟩

/-- A value that holds no values takes a word. -/
lemma leaf {v : Value} (hdepth : v.depth = 0) (hnodes : v.nodes = 1) (hfits : v.Fits limits)
    (hlevel : level ≤ limits.maxDepth) {n : Nat} (hn : 4 ≤ n) :
    Bounded limits level [v] n :=
  singleton_iff.mpr ⟨by omega, hfits, by omega⟩

/-- A collection is one level above the values in it. -/
lemma above {v : Value} {n : Nat} (hlevel : level + 1 ≤ limits.maxDepth) (hfits : v.Fits limits)
    (h : Bounded limits (level + 1) v.children n) : Bounded limits level [v] (4 + n) := by
  refine singleton_iff.mpr ⟨?_, hfits, ?_⟩
  · obtain ⟨left, hleft⟩ := Nat.exists_eq_add_of_le hlevel
    have hdepth : v.depth ≤ left + 1 := depth_le_succ.mpr fun child hchild => by
      have hchild := h.depth_le child hchild
      omega
    omega
  · have hnodes := h.nodes_le
    rw [nodes_eq]
    omega

/-- A list is one level above its items. -/
lemma list {items : List Value} {n : Nat} (hlevel : level + 1 ≤ limits.maxDepth)
    (hcount : items.length ≤ limits.maxElements) (h : Bounded limits (level + 1) items n) :
    Bounded limits level [.list items] (4 + n) :=
  above hlevel (.list hcount h.fits) h

/-- A map is one level above its keys and values. -/
lemma map {entries : List (Value × Value)} {n : Nat} (hlevel : level + 1 ≤ limits.maxDepth)
    (hcount : entries.length ≤ limits.maxElements)
    (h : Bounded limits (level + 1) (ofPairs entries) n) :
    Bounded limits level [.map entries] (4 + n) := by
  have hfits : ∀ entry ∈ entries, ∀ v ∈ [entry.1, entry.2], v.Fits limits :=
    fun entry hentry v hv => h.fits v (List.mem_flatMap.mpr ⟨entry, hentry, hv⟩)
  refine above hlevel (.map hcount (fun entry hentry => ?_) fun entry hentry => ?_) h
  · exact hfits entry hentry entry.1 (by simp)
  · exact hfits entry hentry entry.2 (by simp)

/-- A bundle is one level above its values. -/
lemma bundle {entries : Bundle} {n : Nat} (hlevel : level + 1 ≤ limits.maxDepth)
    (hcount : entries.length ≤ limits.maxElements) (hsorted : Sorted.Ascending compare entries)
    (h : Bounded limits (level + 1) (entries.map Prod.snd) n) :
    Bounded limits level [.bundle entries] (4 + n) :=
  above hlevel (.bundle hcount hsorted fun _ hentry => h.fits _ (List.mem_map_of_mem hentry)) h

end Bounded

end Value

/-- A list whose items are turned into themselves stays as it is. -/
lemma eq_of_mapM_ok {ε α : Type} {f : α → Except ε α} (h : ∀ a b, f a = .ok b → b = a)
    {as bs : List α} (hrun : as.mapM f = .ok bs) : bs = as := by
  induction as generalizing bs with
  | nil =>
    cases hrun
    rfl
  | cons a as ih =>
    rw [List.mapM_cons] at hrun
    obtain ⟨b, hb, hrest⟩ := bind_eq_ok hrun
    obtain ⟨rest, has, hbs⟩ := bind_eq_ok hrest
    cases hbs
    rw [h a b hb, ih has]

namespace ElementKind

/-- The entry of a map that is made of a pair of values. -/
def ofPair (keyKind valueKind : ElementKind) (pair : Value × Value) :
    Except FieldError (Value × Value) := do
  return (← keyKind.ofValue pair.1, ← valueKind.ofValue pair.2)

/-- An element that is carried as itself is read as it is. -/
lemma Own.ofValue {kind : ElementKind} (h : kind.Own) {v item : Value}
    (hitem : kind.ofValue v = .ok item) : item = v := by
  have hexpect : ∀ name fits, expect name fits v = .ok item → item = v := by
    intro name fits hitem
    unfold expect at hitem
    split at hitem
    · exact (Except.ok.inj hitem).symm
    · split at hitem <;> cases hitem
  cases kind with
  | value => exact (Except.ok.inj hitem).symm
  | refined kind => exact h.elim
  | _ => exact hexpect _ _ hitem

/-- A pair of values of kinds that stand for themselves is read as itself. -/
lemma Own.ofPair {keyKind valueKind : ElementKind} (hkey : keyKind.Own) (hvalue : valueKind.Own)
    {pair entry : Value × Value} (hentry : keyKind.ofPair valueKind pair = .ok entry) :
    entry = pair := by
  obtain ⟨k, hk, hrest⟩ := bind_eq_ok hentry
  obtain ⟨v, hv, hpair⟩ := bind_eq_ok hrest
  cases hpair
  rw [hkey.ofValue hk, hvalue.ofValue hv]

end ElementKind

/-! ## Maps of the pairs that were read -/

namespace Sorted

variable {κ α : Type} {compare : κ → κ → Ordering}

/-- Putting a value under a key adds no more than the weight of the pair. -/
lemma weigh_insert_le (weight : κ × α → Nat) (key : κ) (value : α) (entries : List (κ × α)) :
    weigh weight (insert compare key value entries) ≤
      weight (key, value) + weigh weight entries := by
  induction entries with
  | nil => exact Nat.le_refl _
  | cons entry rest ih =>
    unfold insert
    split
    · exact Nat.le_refl _
    · simp only [weigh]
      omega
    · simp only [weigh]
      omega

/-- A map weighs no more than the pairs that it was made from. -/
lemma weigh_ofList_le (weight : κ × α → Nat) (pairs : List (κ × α)) :
    weigh weight (ofList compare pairs) ≤ weigh weight pairs := by
  have hfold : ∀ pairs entries : List (κ × α),
      weigh weight
        (pairs.foldl (fun entries pair => insert compare pair.1 pair.2 entries) entries) ≤
          weigh weight pairs + weigh weight entries := by
    intro pairs
    induction pairs with
    | nil => exact fun entries => Nat.le_of_eq (Nat.zero_add _).symm
    | cons pair rest ih =>
      intro entries
      have hrest := ih (insert compare pair.1 pair.2 entries)
      have hinsert : weigh weight (insert compare pair.1 pair.2 entries) ≤
          weight pair + weigh weight entries := weigh_insert_le weight pair.1 pair.2 entries
      rw [List.foldl_cons, weigh]
      omega
  exact hfold pairs []

/-- If every pair weighs one, a list weighs as much as it is long. -/
lemma weigh_one (entries : List (κ × α)) : weigh (fun _ => 1) entries = entries.length := by
  induction entries with
  | nil => rfl
  | cons entry rest ih => rw [weigh, ih, List.length_cons, Nat.add_comm]

/-- A map has no more entries than the list that it was made of. -/
lemma length_ofList_le (pairs : List (κ × α)) :
    (ofList compare pairs).length ≤ pairs.length := by
  rw [← weigh_one, ← weigh_one]
  exact weigh_ofList_le _ pairs

variable [Std.TransCmp compare]

/-- Putting a value under a key keeps the order. -/
lemma insert_ascending {key : κ} {value : α} {entries : List (κ × α)}
    (h : Ascending compare entries) : Ascending compare (insert compare key value entries) := by
  induction entries with
  | nil => exact List.pairwise_singleton _ _
  | cons entry rest ih =>
    obtain ⟨hentry, hrest⟩ := List.pairwise_cons.mp h
    unfold insert
    split
    case h_1 hlt =>
      have hgt : compare entry.1 key = .gt := Std.OrientedCmp.gt_iff_lt.mpr hlt
      refine List.pairwise_cons.mpr ⟨fun other hother => ?_, h⟩
      rcases List.mem_cons.mp hother with rfl | hother
      · exact hgt
      · exact Std.TransCmp.gt_trans (hentry other hother) hgt
    case h_2 heq =>
      refine List.pairwise_cons.mpr ⟨fun other hother => ?_, hrest⟩
      exact Std.TransCmp.gt_of_gt_of_eq (hentry other hother) (Std.OrientedCmp.eq_symm heq)
    case h_3 hgt =>
      refine List.pairwise_cons.mpr ⟨fun other hother => ?_, ih hrest⟩
      rcases mem_of_mem_insert hother with rfl | hother
      · exact hgt
      · exact hentry other hother

/-- The map of a list of pairs is in order. -/
lemma ascending_ofList (pairs : List (κ × α)) : Ascending compare (ofList compare pairs) := by
  have hfold : ∀ pairs entries : List (κ × α), Ascending compare entries → Ascending compare
      (pairs.foldl (fun entries pair => insert compare pair.1 pair.2 entries) entries) := by
    intro pairs
    induction pairs with
    | nil => exact fun _ h => h
    | cons pair rest ih => exact fun entries h => ih _ (insert_ascending h)
  exact hfold pairs [] .nil

end Sorted

/-! ## Reading -/

namespace Read.Yields

variable {α : Type} {step : Read FieldError α} {wanted : α → Nat → Prop}

/-- A step of the buffer layer inside a payload. -/
lemma lift {step : Read BufferError α} (h : Yields step wanted) :
    Yields (liftM step : Read FieldError α) wanted :=
  mapError FieldError.buffer h

/-- A payload that must not be null takes what the payload takes. -/
lemma required {payload : Read BufferError (Option α)} {consumed : Nat → Prop}
    (h : Yields payload fun _ n => consumed n) :
    Yields (Read.required payload) fun _ n => consumed n := by
  refine (lift h).bind fun a n hn => ?_
  cases a with
  | none => exact throw _
  | some a => exact pure hn

/-- A count that was checked is within the limit on elements. -/
lemma checkElements (limits : Limits) (count : Nat) :
    Yields (liftM (limits.checkElements count) : Read FieldError Unit)
      fun _ _ => count ≤ limits.maxElements := by
  unfold Limits.checkElements
  split
  case isTrue => exact throw _
  case isFalse h => exact pure (Nat.not_lt.mp h)

/-- Telling a tag from its code takes no bytes. -/
lemma parseTag (code : Int32) :
    Yields (liftM (ValueTag.parse code) : Read FieldError ValueTag) fun _ n => n = 0 := by
  unfold ValueTag.parse
  split
  · exact pure rfl
  · exact throw _

/-- An answer that another one is made of, or a failure. -/
lemma liftResult {result : Except FieldError α} (h : ∀ a, result = .ok a → wanted a 0) :
    Yields (liftM result : Read FieldError α) wanted := by
  cases result with
  | ok a => exact pure (h a rfl)
  | error e => exact throw e

/-- A count is within the limit, and a null counts nothing. -/
lemma countOrZero (limits : Limits) :
    Yields (countOrZero limits) fun count _ => count ≤ limits.maxElements :=
  (lift length).bind fun _ _ _ => (checkElements limits _).map fun _ _ hcount => hcount

/-- A count is within the limit on elements. -/
lemma count (limits : Limits) :
    Yields (Read.count limits) fun count _ => ∀ n ∈ count, n ≤ limits.maxElements := by
  refine (lift length).bind fun n _ _ => ?_
  cases n with
  | none => exact pure fun _ h => nomatch h
  | some n =>
    refine (checkElements limits n).map fun _ _ hn m hm => ?_
    cases hm
    exact hn

/-- The items of a counted array are no more than the limit, and the loop keeps its invariant for
some of the bytes. -/
lemma arrayOf (limits : Limits) (invariant : List α → Nat → Prop) (hnil : invariant [] 0)
    (h : Yields step wanted)
    (happend : ∀ done m a n, invariant done m → wanted a n → invariant (done ++ [a]) (m + n)) :
    Yields (Read.arrayOf limits step) fun items n =>
      ∀ as ∈ items, as.length ≤ limits.maxElements ∧ ∃ m ≤ n, invariant as m := by
  refine (count limits).bind fun size k hsize => ?_
  cases size with
  | none => exact pure fun _ h => nomatch h
  | some size =>
    refine (times invariant hnil h happend size).map fun items n hitems as has => ?_
    cases has
    exact ⟨hitems.1 ▸ hsize size rfl, n, Nat.le_add_left n k, hitems.2⟩

/-- The items of a counted array are no more than the limit. -/
lemma length_arrayOf (limits : Limits) (h : Local step) :
    Yields (Read.arrayOf limits step) fun items _ =>
      ∀ as ∈ items, as.length ≤ limits.maxElements :=
  (arrayOf limits (fun _ _ => True) trivial h.yields fun _ _ _ _ _ _ => trivial).imp
    fun _ _ hitems as has => (hitems as has).1

section

variable {limits : Limits} {level : Nat} {item : Read FieldError Value}

/-- The values in a bundle are bounded if each of them is, also where one replaces another. -/
lemma bundleWith (hlocal : Read.Assembled item)
    (h : Yields item fun v n => Value.Bounded limits level [v] n) :
    Yields (Read.bundleWith limits item) fun bundle n => ∀ entries ∈ bundle,
      entries.length ≤ limits.maxElements ∧ Sorted.Ascending compare entries ∧
        Value.Bounded limits level (entries.map Prod.snd) n := by
  have hentry : Yields (do
      let key ← Read.required Read.string16
      let value ← item
      return (key, value)) fun entry n => Value.Bounded limits level [entry.2] n :=
    (required string16).bind fun key k _ => h.map fun v n hv => hv.mono (Nat.le_add_left n k)
  have hentries : Yields (Read.bundleEntries limits item) fun entries n =>
      entries.length ≤ limits.maxElements ∧
        Value.Bounded limits level (entries.map Prod.snd) n := by
    refine (countOrZero limits).bind fun count k hcount => ?_
    refine (times (fun entries n => Value.Bounded limits level (entries.map Prod.snd) n) .nil hentry
      ?_ count).imp ?_
    · intro done m entry n hdone hentry
      rw [List.map_append]
      exact hdone.append hentry
    · rintro entries n ⟨hlength, hentries⟩
      exact ⟨hlength ▸ hcount, hentries.mono (Nat.le_add_left n k)⟩
  rw [bundleWith_eq]
  refine (lift length).bind fun size k hk => ?_
  cases size with
  | none => exact pure fun _ h => nomatch h
  | some size =>
    refine (lift u32).bind fun magic l hl => ?_
    split
    · exact throw _
    · refine (framed .buffer size (Assembled.bundleEntries limits hlocal).local hentries).map ?_
      rintro entries n ⟨rfl, m, hm, hlength, hbounded⟩ bundle hbundle
      cases hbundle
      have hmem : ∀ entry ∈ Bundle.ofList entries, entry.2 ∈ entries.map Prod.snd :=
        fun entry hentry => List.mem_map_of_mem (Sorted.mem_of_mem_ofList hentry)
      refine ⟨Nat.le_trans (Sorted.length_ofList_le entries) hlength,
        Sorted.ascending_ofList entries, ?_, ?_, ?_⟩
      · exact List.forall_mem_map.mpr fun entry hentry =>
          hbounded.depth_le _ (hmem entry hentry)
      · exact List.forall_mem_map.mpr fun entry hentry => hbounded.fits _ (hmem entry hentry)
      · have hnodes := hbounded.nodes_le
        have hsum := @Sorted.weigh_ofList_le _ _ compare
          (fun entry : String × Value => entry.2.nodes) entries
        rw [Value.nodesOfItems_map_snd, Value.nodesOfEntries_eq] at hnodes ⊢
        rw [Bundle.ofList]
        omega

/-- A value without others in it, made of a payload of its own, is bounded by the bytes of the tag
alone. -/
lemma leaf {β : Type} {step : Read FieldError β} {f : β → Value}
    (hlevel : level ≤ limits.maxDepth) (hstep : Local step)
    (hf : ∀ b, (f b).count? = none ∧ (f b).depth = 0 ∧ (f b).nodes = 1) :
    Yields (step >>= fun b => Pure.pure (f b)) fun v n =>
      Value.Bounded limits level [v] (4 + (0 + n)) :=
  hstep.yields.map fun b _ _ =>
    .leaf (hf b).2.1 (hf b).2.2 (.single (hf b).1) hlevel (Nat.le_add_right 4 _)

/-- So is an array whose items are no values, if there are not too many. -/
lemma leafArray {β : Type} {step : Read FieldError β} {f : List β → Value}
    (hlevel : level ≤ limits.maxDepth) (hstep : Local step)
    (hf : ∀ items, (f items).depth = 0 ∧ (f items).nodes = 1)
    (hfits : ∀ items : List β, items.length ≤ limits.maxElements → (f items).Fits limits) :
    Yields (Read.arrayOf limits step >>= fun items => Pure.pure (items.elim .null f)) fun v n =>
      Value.Bounded limits level [v] (4 + (0 + n)) := by
  refine (length_arrayOf limits hstep).map ?_
  rintro (_ | items) n hitems
  · exact .leaf rfl rfl (.single rfl) hlevel (Nat.le_add_right 4 _)
  · exact .leaf (hf items).1 (hf items).2 (hfits items (hitems items rfl)) hlevel
      (Nat.le_add_right 4 _)

/-- What is one level deeper may count on that level, if there is one. -/
lemma deeper {β : Type} {inner : Option (Read FieldError Value)}
    {next : Read FieldError Value → Read FieldError β} {yields : β → Nat → Prop}
    (hdeeper : inner.isSome → level + 1 ≤ limits.maxDepth)
    (hlocal : ∀ item ∈ inner, Read.Assembled item)
    (h : ∀ item ∈ inner, Yields item fun v n => Value.Bounded limits (level + 1) [v] n)
    (hnext : ∀ item, level + 1 ≤ limits.maxDepth → Read.Assembled item →
      (Yields item fun v n => Value.Bounded limits (level + 1) [v] n) → Yields (next item) yields) :
    Yields (Read.deeper limits inner >>= next) yields := by
  cases inner with
  | none => exact throw (FieldError.limit (.depth limits))
  | some item => exact hnext item (hdeeper rfl) (hlocal item rfl) (h item rfl)

/-- A value is bounded, if the values one level deeper are. -/
lemma readWith {inner : Option (Read FieldError Value)} (hlevel : level ≤ limits.maxDepth)
    (hdeeper : inner.isSome → level + 1 ≤ limits.maxDepth)
    (hlocal : ∀ item ∈ inner, Read.Assembled item)
    (h : ∀ item ∈ inner, Yields item fun v n => Value.Bounded limits (level + 1) [v] n) :
    Yields (Value.readWith limits inner) fun v n => Value.Bounded limits level [v] n := by
  -- what is behind the tag is judged with the bytes of the tag
  refine (lift i32).bind fun code m hm => ?_
  refine (parseTag code).bind fun tag k hk => ?_
  subst hm hk
  have hnull : ∀ n, Value.Bounded limits level [.null] (4 + (0 + n)) := fun n =>
    .leaf rfl rfl (.single rfl) hlevel (Nat.le_add_right 4 _)
  cases tag with
  | null => exact pure (hnull 0)
  | string => exact leaf hlevel (Read.Assembled.required .string16).local fun _ => ⟨rfl, rfl, rfl⟩
  | int => exact leaf hlevel (Read.Assembled.lift .i32).local fun _ => ⟨rfl, rfl, rfl⟩
  | map =>
    refine deeper hdeeper hlocal h fun item hlevel hlocal hitem => ?_
    refine (countOrZero limits).bind fun count k hcount => ?_
    have hentry : Yields (do return (← item, ← item)) fun entry n =>
        Value.Bounded limits (level + 1) [entry.1, entry.2] n :=
      hitem.bind fun key m hkey => hitem.map fun v n hv => hkey.append hv
    refine (times (fun entries n => Value.Bounded limits (level + 1) (Value.ofPairs entries) n) .nil
      hentry ?_ count).map ?_
    · intro done m entry n hdone hentry
      rw [Value.ofPairs, List.flatMap_append]
      exact hdone.append hentry
    · rintro entries n ⟨hlength, hentries⟩
      exact (hentries.map hlevel (hlength ▸ hcount)).mono (by omega)
  | bundle =>
    refine deeper hdeeper hlocal h fun item hlevel hlocal hitem => ?_
    refine (bundleWith hlocal hitem).map fun bundle n hbundle => ?_
    cases bundle with
    | none => exact hnull n
    | some entries =>
      obtain ⟨hlength, hsorted, hentries⟩ := hbundle entries rfl
      exact (hentries.bundle hlevel hlength hsorted).mono (by omega)
  | parcelable => exact throw _
  | short => exact leaf hlevel (Read.Assembled.lift .i32).local fun _ => ⟨rfl, rfl, rfl⟩
  | long => exact leaf hlevel (Read.Assembled.lift .i64).local fun _ => ⟨rfl, rfl, rfl⟩
  | float => exact leaf hlevel (Read.Assembled.lift .float).local fun _ => ⟨rfl, rfl, rfl⟩
  | double => exact leaf hlevel (Read.Assembled.lift .double).local fun _ => ⟨rfl, rfl, rfl⟩
  | bool => exact leaf hlevel (Read.Assembled.lift .bool).local fun _ => ⟨rfl, rfl, rfl⟩
  | list =>
    refine deeper hdeeper hlocal h fun item hlevel hlocal hitem => ?_
    refine (countOrZero limits).bind fun count k hcount => ?_
    refine (times (fun items n => Value.Bounded limits (level + 1) items n) .nil hitem
      (fun done m v n hdone hv => hdone.append hv) count).map ?_
    rintro items n ⟨hlength, hitems⟩
    exact (hitems.list hlevel (hlength ▸ hcount)).mono (by omega)
  | byteArray =>
    refine leaf hlevel (Read.Assembled.lift .byteArray).local fun bytes => ?_
    cases bytes <;> exact ⟨rfl, rfl, rfl⟩
  | stringArray =>
    exact leafArray hlevel (Read.Assembled.required .string16).local (fun _ => ⟨rfl, rfl⟩)
      fun _ => .stringArray
  | binder => exact leaf hlevel (Read.Assembled.lift .binder).local fun _ => ⟨rfl, rfl, rfl⟩
  | intArray =>
    exact leafArray hlevel (Read.Assembled.lift .i32).local (fun _ => ⟨rfl, rfl⟩)
      fun _ => .intArray
  | longArray =>
    exact leafArray hlevel (Read.Assembled.lift .i64).local (fun _ => ⟨rfl, rfl⟩)
      fun _ => .longArray
  | byte => exact leaf hlevel (Read.Assembled.lift .i32).local fun _ => ⟨rfl, rfl, rfl⟩

/-- A value is bounded at the level that leaves so many levels below it. -/
lemma readWithin {levels : Nat} (hlevels : level + levels = limits.maxDepth) :
    Yields (Value.readWithin limits levels) fun v n => Value.Bounded limits level [v] n := by
  induction levels generalizing level with
  | zero =>
    exact readWith (by omega) (fun h => nomatch h) (fun _ h => nomatch h) fun _ h => nomatch h
  | succ levels ih =>
    refine readWith (by omega) (fun _ => by omega) ?_ ?_
    · rintro item ⟨⟩
      exact Read.Assembled.readWithin limits levels
    · rintro item ⟨⟩
      exact ih (by omega)

/-- A value is bounded by the bytes that it takes. -/
theorem value (hlevel : level ≤ limits.maxDepth) :
    Yields (Value.read limits level) fun v n => Value.Bounded limits level [v] n :=
  readWithin (by omega)

/-- A bundle counts no more than allowed, ascends, and is bounded by the bytes that it takes. -/
theorem bundle (hlevel : level ≤ limits.maxDepth) :
    Yields (Bundle.read limits level) fun bundle n => ∀ entries ∈ bundle,
      entries.length ≤ limits.maxElements ∧ Sorted.Ascending compare entries ∧
        Value.Bounded limits level (entries.map Prod.snd) n :=
  bundleWith (Read.Assembled.value limits level) (value hlevel)

/-! ## Lists and maps -/

/-- An element of a list without tags is a value on its own, and takes a word or more. -/
lemma compact (layout : Semantic) :
    Yields (Read.compact layout) fun v n => Value.Bounded limits 0 [v] n := by
  have hleaf : ∀ {β : Type} {step : Read FieldError β} {f : β → Value},
      (Yields step fun _ n => 4 ≤ n) →
        (∀ b, (f b).count? = none ∧ (f b).depth = 0 ∧ (f b).nodes = 1) →
          Yields (step >>= fun b => Pure.pure (f b)) fun v n => Value.Bounded limits 0 [v] n :=
    fun hstep hf => hstep.map fun b n hn =>
      .leaf (hf b).2.1 (hf b).2.2 (.single (hf b).1) (Nat.zero_le _) hn
  unfold Read.compact
  split
  · exact hleaf ((lift i32).imp fun _ n hn => by omega) fun _ => ⟨rfl, rfl, rfl⟩
  · exact hleaf ((lift bool).imp fun _ n hn => by omega) fun _ => ⟨rfl, rfl, rfl⟩
  · exact hleaf ((lift i64).imp fun _ n hn => by omega) fun _ => ⟨rfl, rfl, rfl⟩
  · exact hleaf ((lift float).imp fun _ n hn => by omega) fun _ => ⟨rfl, rfl, rfl⟩
  · exact hleaf ((lift double).imp fun _ n hn => by omega) fun _ => ⟨rfl, rfl, rfl⟩
  · exact hleaf (required string16) fun _ => ⟨rfl, rfl, rfl⟩
  · exact throw _

/-- The elements of a list are made of bounded values, in either layout. -/
theorem listPayload (kind : ElementKind) (layout : Semantic) :
    Yields (Read.list kind layout limits) fun items n =>
      items.length ≤ limits.maxElements ∧ ∃ carried, carried.mapM kind.ofValue = .ok items ∧
        Value.Bounded limits 0 carried n := by
  have hitem : Yields (do
      let v ← if layout = .list then Value.read limits 0 else Read.compact layout
      kind.ofValue v) fun item n =>
        ∃ v, kind.ofValue v = .ok item ∧ Value.Bounded limits 0 [v] n := by
    dsimp only
    split
    · exact (value (Nat.zero_le _)).bind fun v n hv => liftResult fun item hitem => ⟨v, hitem, hv⟩
    · exact (compact layout).bind fun v n hv => liftResult fun item hitem => ⟨v, hitem, hv⟩
  refine (arrayOf limits (fun items n => ∃ carried, carried.mapM kind.ofValue = .ok items ∧
    Value.Bounded limits 0 carried n) ⟨[], rfl, .nil⟩ hitem ?_).map ?_
  · rintro done m item n ⟨carried, hdone, hbounded⟩ ⟨v, hv, hvalue⟩
    refine ⟨carried ++ [v], ?_, hbounded.append hvalue⟩
    rw [List.mapM_append, hdone, List.mapM_cons, hv]
    rfl
  · rintro (_ | items) n hitems
    · exact ⟨Nat.zero_le _, [], rfl, Value.Bounded.nil.mono (Nat.zero_le n)⟩
    · obtain ⟨hlength, m, hm, carried, hcarried, hbounded⟩ := hitems items rfl
      exact ⟨hlength, carried, hcarried, hbounded.mono hm⟩

/-- An element is made of a value that is bounded by the bytes that it takes. -/
lemma element (kind : ElementKind) :
    Yields (Read.element kind limits) fun item n =>
      ∃ v, kind.ofValue v = .ok item ∧ Value.Bounded limits 0 [v] n :=
  (value (Nat.zero_le _)).bind fun v _ hv => liftResult fun _ hitem => ⟨v, hitem, hv⟩

/-- The entries of a map are made of bounded keys and values, those that are replaced included. -/
theorem mapPayload (keyKind valueKind : ElementKind) :
    Yields (Read.map keyKind valueKind limits) fun entries n => ∃ carried pairs,
      carried.mapM (keyKind.ofPair valueKind) = .ok pairs ∧
        entries = Sorted.ofList Value.compareKeys pairs ∧ pairs.length ≤ limits.maxElements ∧
          Value.Bounded limits 0 (Value.ofPairs carried) n := by
  have hitem : Yields (do
      return (← Read.element keyKind limits, ← Read.element valueKind limits)) fun pair n =>
        ∃ k v, keyKind.ofPair valueKind (k, v) = .ok pair ∧ Value.Bounded limits 0 [k, v] n := by
    refine (element keyKind).bind fun key m hkey => (element valueKind).map fun item n hitem => ?_
    obtain ⟨k, hk, hbounded⟩ := hkey
    obtain ⟨v, hv, hvalue⟩ := hitem
    refine ⟨k, v, ?_, hbounded.append hvalue⟩
    rw [ElementKind.ofPair, hk, hv]
    rfl
  refine (arrayOf limits (fun pairs n => ∃ carried,
    carried.mapM (keyKind.ofPair valueKind) = .ok pairs ∧
      Value.Bounded limits 0 (Value.ofPairs carried) n) ⟨[], rfl, .nil⟩ hitem ?_).map ?_
  · rintro done m pair n ⟨carried, hdone, hbounded⟩ ⟨k, v, hpair, hvalue⟩
    refine ⟨carried ++ [(k, v)], ?_, ?_⟩
    · rw [List.mapM_append, hdone, List.mapM_cons, hpair]
      rfl
    · rw [Value.ofPairs, List.flatMap_append]
      exact hbounded.append hvalue
  · rintro (_ | pairs) n hpairs
    · exact ⟨[], [], rfl, rfl, Nat.zero_le _, Value.Bounded.nil.mono (Nat.zero_le n)⟩
    · obtain ⟨hlength, m, hm, carried, hcarried, hbounded⟩ := hpairs pairs rfl
      exact ⟨carried, pairs, hcarried, rfl, hlength, hbounded.mono hm⟩

end

end Read.Yields

/-- A reader that is further in the same buffer, but not behind the limit. -/
structure Reader.Precedes (r r' : Reader) : Prop where
  /-- The position does not go back. -/
  pos_le : r.pos ≤ r'.pos
  /-- The position does not lie behind the limit. -/
  le_limit : r'.pos ≤ r'.limit
  /-- The limit stays in force. -/
  limit_eq : r'.limit = r.limit

/-- A step that yields an answer moves forward, by the bytes that the answer is judged with. -/
lemma Read.Yields.precedes {α : Type} {step : Read FieldError α} {wanted : α → Nat → Prop}
    (h : Yields step wanted) {r r' : Reader} (hr : r.Sound) {a : α} (hstep : step r = .ok a r') :
    r.Precedes r' ∧ wanted a (r'.pos - r.pos) := by
  obtain ⟨n, hn, rfl, ha⟩ := h hr hstep
  have hlimit := Reader.limit_eq hr
  refine ⟨⟨Nat.le_add_right _ _, ?_, rfl⟩, ?_⟩
  · rw [Reader.advance_pos, Reader.advance_limit]
    omega
  · rwa [Reader.advance_pos, Nat.add_sub_cancel_left]

/-- What is read into a value keeps within the limits, and each value in it takes four bytes or
more. The same holds of the values in a bundle, and of those that the elements of lists and the
entries of maps are made of. Elements of a kind without a meaning of its own are these values.

**Proof sketch.** A loop of reads keeps the bounds, because the bytes of its rounds add up, and it
has no more rounds than the limit. The tag of a value pays for the value itself, and what follows
the tag for the values one level deeper. In a bundle and in a map later entries replace earlier
ones, so that only fewer values are left. The induction is on the levels that are left. -/
theorem Value.read_bounded {limits : Limits} {r : Reader} (hr : r.Sound) :
    (∀ level ≤ limits.maxDepth, ∀ v r', Value.read limits level r = .ok v r' →
      r.Precedes r' ∧ level + v.depth ≤ limits.maxDepth ∧ v.Fits limits ∧
        4 * v.nodes ≤ r'.pos - r.pos) ∧
    (∀ level ≤ limits.maxDepth, ∀ bundle r', Bundle.read limits level r = .ok bundle r' →
      r.Precedes r' ∧ ∀ entries ∈ bundle, entries.length ≤ limits.maxElements ∧
        Bounded limits level (entries.map Prod.snd) (r'.pos - r.pos)) ∧
    (∀ kind layout items r', Read.list kind layout limits r = .ok items r' →
      r.Precedes r' ∧ items.length ≤ limits.maxElements ∧
        ∃ carried, carried.mapM kind.ofValue = .ok items ∧ (kind.Own → items = carried) ∧
          Bounded limits 0 carried (r'.pos - r.pos)) ∧
    (∀ keyKind valueKind entries r', Read.map keyKind valueKind limits r = .ok entries r' →
      r.Precedes r' ∧ entries.length ≤ limits.maxElements ∧
        ∃ carried pairs, carried.mapM (keyKind.ofPair valueKind) = .ok pairs ∧
          (keyKind.Own → valueKind.Own → pairs = carried) ∧
          entries = Sorted.ofList Value.compareKeys pairs ∧ pairs.length ≤ limits.maxElements ∧
          Bounded limits 0 (ofPairs carried) (r'.pos - r.pos)) := by
  refine ⟨fun level hlevel v r' hread => ?_, fun level hlevel bundle r' hread => ?_,
    fun kind layout items r' hread => ?_, fun keyKind valueKind entries r' hread => ?_⟩
  · obtain ⟨hmoves, hbounded⟩ := (Read.Yields.value hlevel).precedes hr hread
    exact ⟨hmoves, Bounded.singleton_iff.mp hbounded⟩
  · obtain ⟨hmoves, hbundle⟩ := (Read.Yields.bundle hlevel).precedes hr hread
    exact ⟨hmoves, fun entries hentries =>
      ⟨(hbundle entries hentries).1, (hbundle entries hentries).2.2⟩⟩
  · obtain ⟨hmoves, hlength, carried, hcarried, hbounded⟩ :=
      (Read.Yields.listPayload kind layout).precedes hr hread
    refine ⟨hmoves, hlength, carried, hcarried, fun hown => ?_, hbounded⟩
    exact eq_of_mapM_ok (fun _ _ h => hown.ofValue h) hcarried
  · obtain ⟨hmoves, carried, pairs, hcarried, hentries, hlength, hbounded⟩ :=
      (Read.Yields.mapPayload keyKind valueKind).precedes hr hread
    refine ⟨hmoves, ?_, carried, pairs, hcarried, fun hk hv => ?_, hentries, hlength, hbounded⟩
    · rw [hentries]
      exact Nat.le_trans (Sorted.length_ofList_le pairs) hlength
    · exact eq_of_mapM_ok (fun _ _ h => hk.ofPair hv h) hcarried

namespace Sample

/-- A list of a bundle without entries. -/
def emptyBundle : Array UInt8 :=
  #[11, 0, 0, 0, 1, 0, 0, 0,  3, 0, 0, 0, 4, 0, 0, 0,  66, 78, 68, 76, 0, 0, 0, 0]

/-- The pairs of a map, of which the second replaces the first. -/
def repeatedKey : Array UInt8 :=
  #[2, 0, 0, 0,  1, 0, 0, 0, 7, 0, 0, 0,  255, 255, 255, 255,
    1, 0, 0, 0, 7, 0, 0, 0,  9, 0, 0, 0, 1, 0, 0, 0]

end Sample

/-- A list of a bundle has the two levels that are left below the first, and a map may have as many
pairs as the limit says, although one of them is replaced. -/
theorem Value.read_bounded_samples :
    (Reader.ofBytes Sample.emptyBundle).Sound ∧ (Reader.ofBytes Sample.repeatedKey).Sound ∧
      (Value.read ⟨3, 2, 0⟩ 1 (.ofBytes Sample.emptyBundle) =
          .ok (.list [.bundle []]) ⟨Sample.emptyBundle, 24, 24⟩ ∧
        1 + (Value.list [.bundle []]).depth ≤ 3 ∧ 4 * (Value.list [.bundle []]).nodes ≤ 24) ∧
      Read.map .int .value ⟨3, 2, 0⟩ (.ofBytes Sample.repeatedKey) =
          .ok [(.int 7, .bool true)] ⟨Sample.repeatedKey, 32, 32⟩ ∧
        ∃ carried, Sorted.ofList Value.compareKeys carried = [(.int 7, .bool true)] ∧
          carried.length ≤ 2 ∧ Bounded ⟨3, 2, 0⟩ 0 (ofPairs carried) 32 := by
  have hempty : (Reader.ofBytes Sample.emptyBundle).Sound := Reader.sound_ofBytes (by decide)
  have hrepeated : (Reader.ofBytes Sample.repeatedKey).Sound := Reader.sound_ofBytes (by decide)
  have hvalue : Value.read ⟨3, 2, 0⟩ 1 (.ofBytes Sample.emptyBundle) =
      .ok (.list [.bundle []]) ⟨Sample.emptyBundle, 24, 24⟩ := rfl
  have hmap : Read.map .int .value ⟨3, 2, 0⟩ (.ofBytes Sample.repeatedKey) =
      .ok [(.int 7, .bool true)] ⟨Sample.repeatedKey, 32, 32⟩ := rfl
  obtain ⟨-, hdepth, -, hnodes⟩ := (read_bounded hempty).1 1 (by decide) _ _ hvalue
  obtain ⟨-, -, carried, pairs, -, hown, hentries, hcount, hbounded⟩ :=
    (read_bounded hrepeated).2.2.2 .int .value _ _ hmap
  rw [hown trivial trivial] at hentries hcount
  exact ⟨hempty, hrepeated, ⟨hvalue, hdepth, hnodes⟩, hmap, carried, hentries.symm, hcount,
    hbounded⟩

end TaggedParcel
