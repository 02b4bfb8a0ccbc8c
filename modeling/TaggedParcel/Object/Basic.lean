import TaggedParcel.Schema.FieldKind

set_option relaxedAutoImplicit false
set_option autoImplicit false

/-!
# Objects

An object has a member for every field of its type, under the field's id.

## Main definitions

* `Object`, `Member` — objects and what their fields hold.
* `Object.get?`, `Object.set` — looking up and replacing a member.
* `FieldKind.zero` — the member of a blank object.
-/

namespace TaggedParcel

mutual

/-- The members of an object, under the ids of their fields. -/
structure Object where
  /-- Each id with its member. -/
  members : List (UInt16 × Member)

/-- What a field holds. -/
inductive Member where
  /-- A single value, or nothing. -/
  | value (v : Option FieldValue)
  /-- A list of generic values. -/
  | list (items : List Value)
  /-- A map of generic values, keys in ascending order. -/
  | map (entries : List (Value × Value))
  /-- An object, or nothing. -/
  | object (o : Option Object)
  /-- An array of objects, some of them missing. -/
  | objectArray (items : List (Option Object))
  /-- A list of objects. -/
  | objectList (items : List Object)
  /-- A map to objects, keys in ascending order. -/
  | objectMap (entries : List (Value × Object))
  /-- The handle that a proxy works with, or nothing. -/
  | interface (handle : Option BinderHandle)

end

/-- An object without members is there by default. -/
instance : Inhabited Object :=
  ⟨⟨[]⟩⟩

namespace Object

/-- The member under an id. -/
def get? (o : Object) (id : UInt16) : Option Member :=
  o.members.lookup id

/-- Replaces the member under an id; the other members stay as they are. -/
def set (o : Object) (id : UInt16) (member : Member) : Object :=
  ⟨o.members.map fun entry => if entry.1 = id then (id, member) else entry⟩

end Object

namespace Member

/-- The name of what a member is in messages. -/
def kindName : Member → String
  | .value _ => "value"
  | .list _ => "list"
  | .map _ => "map"
  | .object _ => "object"
  | .objectArray _ => "object array"
  | .objectList _ => "object list"
  | .objectMap _ => "object map"
  | .interface _ => "interface"

end Member

namespace FieldKind

/-- The name of the members of a kind in messages. -/
def memberName : FieldKind → String
  | .value _ _ => "value"
  | .list _ => "list"
  | .map _ _ => "map"
  | .object _ => "object"
  | .objectArray _ => "object array"
  | .objectList _ => "object list"
  | .objectMap _ _ => "object map"
  | .interface _ => "interface"

/-- The member of a blank object: nothing where it may be absent, else the zero of its kind. -/
def zero : FieldKind → Member
  | .value _ true => .value none
  | .value kind false => .value kind.zero?
  | .list _ => .list []
  | .map _ _ => .map []
  | .object _ => .object none
  | .objectArray _ => .objectArray []
  | .objectList _ => .objectList []
  | .objectMap _ _ => .objectMap []
  | .interface _ => .interface none

end FieldKind

end TaggedParcel
