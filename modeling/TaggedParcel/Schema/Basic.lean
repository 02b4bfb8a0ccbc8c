import TaggedParcel.Descriptor.Basic
import TaggedParcel.Object.Basic

set_option relaxedAutoImplicit false
set_option autoImplicit false

/-!
# Declarations and schemas

A described type registers its fields one after another. It may also inherit from another
described type, whose fields then are fields of its own. Such a declaration is compiled before its
objects can be written or read: every shape gets its layout, the fields of ancestors are taken
over, and the ids are checked.

## Main definitions

* `TypeDecl`, `Registration` — a described type and what it registers.
* `TypeDecl.schemaName` — the name in messages, by default the last part of the full name.
* `TypeDecl.blank` — the object with nothing in it.
* `Schema` — a compiled declaration: the descriptor of the type, and how its fields were
  registered.
* `Schema.entries`, `Schema.entry?` — the fields with their kinds.
* `TypeDecl.compile` — the schema of a declaration.
* `Environment` — the schemas of all types at hand, and the factories for proxies.
-/

namespace TaggedParcel

/-! ## Declarations -/

mutual

/-- A described type. -/
structure TypeDecl where
  /-- The full name: parts joined by double colons, and perhaps parameters. -/
  path : String
  /-- A name for messages in place of the last part of the full one. -/
  rename : Option String
  /-- What the type registers, in order. -/
  registrations : List Registration
  /-- The fresh instance that decoding fills, if there is one. -/
  initial : Option Object

/-- What a described type registers. -/
inductive Registration where
  /-- A field of its own. -/
  | field (id : UInt16) (name : String) (kind : FieldKind) (options : FieldOptions)
  /-- The fields of an ancestor, which is embedded as the part of this name. -/
  | inherit (part : String) (base : TypeDecl)

end

/-- The last part of a full name, without parameters. -/
def shortName (path : String) : String :=
  go [] path.toList
where
  /-- Collects the characters of the present part, last first. -/
  go : List Char → List Char → String
    | part, [] => String.ofList part.reverse
    | part, '<' :: _ => String.ofList part.reverse
    | _, ':' :: ':' :: rest => go [] rest
    | part, c :: rest => go (c :: part) rest

mutual

/-- The object of a type in which every member is the zero of its kind. -/
def TypeDecl.blankMembers : TypeDecl → List (UInt16 × Member)
  | ⟨_, _, registrations, _⟩ => Registration.blankMembers registrations

/-- The members of a blank object, for registrations in order. -/
def Registration.blankMembers : List Registration → List (UInt16 × Member)
  | [] => []
  | .field id _ kind _ :: rest => (id, kind.zero) :: Registration.blankMembers rest
  | .inherit _ base :: rest => base.blankMembers ++ Registration.blankMembers rest

end

namespace TypeDecl

/-- The name of a type in messages. -/
def schemaName (decl : TypeDecl) : String :=
  decl.rename.getD (shortName decl.path)

/-- The object in which every member is the zero of its kind. -/
def blank (decl : TypeDecl) : Object :=
  ⟨Sorted.ofList compare decl.blankMembers⟩

end TypeDecl

/-! ## Schemas -/

/-- A compiled declaration. -/
structure Schema where
  /-- The fields with their layouts. -/
  descriptor : TypeDescriptor
  /-- How the fields were registered, in ascending order of their ids. -/
  kinds : List (UInt16 × FieldKind)
  /-- The fresh instance that decoding fills. -/
  initial : Option Object

namespace Schema

/-- The name of the type in messages. -/
def name (s : Schema) : String :=
  s.descriptor.name

/-- The fields in ascending order of their ids, with how they were registered. -/
def entries (s : Schema) : List (FieldDescriptor × FieldKind) :=
  s.descriptor.fields.filterMap fun field =>
    (s.kinds.lookup field.id).map fun kind => (field, kind)

/-- The field of an id, with how it was registered. -/
def entry? (s : Schema) (id : UInt16) : Option (FieldDescriptor × FieldKind) := do
  let field ← s.descriptor.field? id
  let kind ← s.kinds.lookup id
  return (field, kind)

/-- A fresh instance. -/
def construct (s : Schema) : Except SchemaError Object :=
  match s.initial with
  | some o => .ok o
  | none => .error (.notConstructible s.name)

end Schema

namespace Registration

/-- The field of a registration, with its layout. -/
def ownField? : Registration → Option (Except SchemaError (FieldDescriptor × FieldKind))
  | .field id name kind options =>
    some do return (← FieldDescriptor.make id name kind.shape options, kind)
  | .inherit _ _ => none

/-- The fields that registrations add themselves, with their layouts. -/
def ownFields (registrations : List Registration) :
    Except SchemaError (List (FieldDescriptor × FieldKind)) :=
  (registrations.filterMap ownField?).mapM id

end Registration

/-- The schema of a type with compiled ancestors. The fields of the ancestors come before the
type's own; under one id the last registration stands. -/
def Schema.assemble (decl : TypeDecl) (ancestors : List Schema) : Except SchemaError Schema := do
  let own ← Registration.ownFields decl.registrations
  let descriptor ← TypeDescriptor.build decl.schemaName decl.initial.isSome
    (ancestors.map (fun base => .inherited base.descriptor) ++
      own.map (fun entry => .own entry.1))
  let kinds := ancestors.flatMap (fun base => base.kinds) ++
    own.map fun entry => (entry.1.id, entry.2)
  return ⟨descriptor, Sorted.ofList compare kinds, decl.initial⟩

mutual

/-- The schema of a declaration. What is wrong with an ancestor is found first. -/
def TypeDecl.compile : TypeDecl → Except SchemaError Schema
  | ⟨path, rename, registrations, initial⟩ => do
    let ancestors ← Registration.compileAncestors registrations
    Schema.assemble ⟨path, rename, registrations, initial⟩ ancestors

/-- The schemas of the ancestors among registrations, in order. -/
def Registration.compileAncestors : List Registration → Except SchemaError (List Schema)
  | [] => .ok []
  | .field _ _ _ _ :: rest => Registration.compileAncestors rest
  | .inherit _ base :: rest => do
    let schema ← base.compile
    let schemas ← Registration.compileAncestors rest
    return schema :: schemas

end

/-- The types and interfaces at hand when objects are written and read. -/
structure Environment where
  /-- The schema of the type of a full name. -/
  schemaOf : String → Except SchemaError Schema
  /-- The factories for proxies. -/
  interfaces : InterfaceRegistry

/-- The environment of a list of declarations. -/
def Environment.ofTypes (types : List TypeDecl) (interfaces : InterfaceRegistry) : Environment :=
  let schemas := types.map fun decl => (decl.path, decl.compile)
  { schemaOf := fun path => (schemas.lookup path).getD (.error (.unsupportedType (.object path)))
    interfaces }

end TaggedParcel
