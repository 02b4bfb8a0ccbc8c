import TaggedParcel.Value.Basic

set_option relaxedAutoImplicit false
set_option autoImplicit false

/-!
# Maps in ascending order of keys

Maps are kept as lists of pairs, each key at most once, in ascending order under a comparison
that is given with every operation. The texts of a bundle are ordered by their code points, which
is also the order of their UTF-8 bytes.

The keys of other maps are values of one kind: truth values, integers, texts or arrays of these.
Integers are ordered as numbers, texts by their code points, arrays item by item.

## Main definitions

* `Sorted.insert`, `Sorted.erase`, `Sorted.get?` — the operations of a map.
* `Sorted.ofList` — the map of a list of pairs, of which later ones win.
* `Bundle.insert`, `Bundle.erase`, `Bundle.get?`, `Bundle.keys` — the operations of a bundle.
* `Bundle.ofList` — the bundle of a list of entries, of which later ones win.
* `Value.compareKeys` — the order of map keys.
-/

namespace TaggedParcel.Sorted

variable {κ α : Type}

/-- Puts a value under a key, in place of a value already there. -/
def insert (compare : κ → κ → Ordering) (key : κ) (value : α) : List (κ × α) → List (κ × α)
  | [] => [(key, value)]
  | entry :: rest =>
    match compare key entry.1 with
    | .lt => (key, value) :: entry :: rest
    | .eq => (key, value) :: rest
    | .gt => entry :: insert compare key value rest

/-- Takes away the value under a key. -/
def erase (compare : κ → κ → Ordering) (key : κ) (entries : List (κ × α)) : List (κ × α) :=
  entries.filter fun entry => compare key entry.1 != .eq

/-- The value under a key. -/
def get? (compare : κ → κ → Ordering) (key : κ) (entries : List (κ × α)) : Option α :=
  (entries.find? fun entry => compare key entry.1 == .eq).map Prod.snd

/-- The map that a list of pairs gives, where the last pair of a key wins. -/
def ofList (compare : κ → κ → Ordering) (pairs : List (κ × α)) : List (κ × α) :=
  pairs.foldl (fun entries pair => insert compare pair.1 pair.2 entries) []

end TaggedParcel.Sorted

namespace TaggedParcel.Bundle

/-- Puts a value under a text. -/
def insert (bundle : Bundle) (key : String) (value : Value) : Bundle :=
  Sorted.insert compare key value bundle

/-- Takes away the value under a text. -/
def erase (bundle : Bundle) (key : String) : Bundle :=
  Sorted.erase compare key bundle

/-- The value under a text. -/
def get? (bundle : Bundle) (key : String) : Option Value :=
  Sorted.get? compare key bundle

/-- The texts with a value, in ascending order. -/
def keys (bundle : Bundle) : List String :=
  bundle.map Prod.fst

/-- The bundle that a list of entries gives, where the last entry of a text wins. -/
def ofList (entries : List (String × Value)) : Bundle :=
  Sorted.ofList compare entries

end TaggedParcel.Bundle

namespace TaggedParcel

/-- The first difference between two lists decides, and an end comes before any item. -/
def compareLists {α : Type} (cmp : α → α → Ordering) : List α → List α → Ordering
  | [], [] => .eq
  | [], _ :: _ => .lt
  | _ :: _, [] => .gt
  | a :: as, b :: bs => (cmp a b).then (compareLists cmp as bs)

/-- The order of map keys. Values of different kinds, or of a kind that no key has, are ordered
by their tags alone. -/
def Value.compareKeys : Value → Value → Ordering
  | .bool a, .bool b => compare a b
  | .byte a, .byte b => compare a.toInt b.toInt
  | .short a, .short b => compare a.toInt b.toInt
  | .int a, .int b => compare a.toInt b.toInt
  | .long a, .long b => compare a.toInt b.toInt
  | .string a, .string b => compare a b
  | .byteArray a, .byteArray b => compareLists compare a.toList b.toList
  | .intArray a, .intArray b => compareLists (fun x y => compare x.toInt y.toInt) a b
  | .longArray a, .longArray b => compareLists (fun x y => compare x.toInt y.toInt) a b
  | .stringArray a, .stringArray b => compareLists compare a b
  | a, b => compare a.tag.code.toInt b.tag.code.toInt

end TaggedParcel
