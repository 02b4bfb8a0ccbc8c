import TaggedParcel.Schema.Element

set_option relaxedAutoImplicit false
set_option autoImplicit false

/-!
# Kinds of fields

How the fields of a described type are registered: with a single value, as a list or map of
generic values, with objects of described types, or with an interface.

A handle in a field of the last kind becomes useful through a proxy, which is made from it by the
factory registered for that kind of proxy. A proxy is seen here through the handle it works with.

## Main definitions

* `Proxy` — a kind of proxy.
* `InterfaceRegistry` — the factories, at most one for each kind of proxy.
* `Interface` — a proxy that was made.
* `FieldKind` — the ways to register a field.
* `FieldKind.shape` — what a field declares.
-/

namespace TaggedParcel

/-! ## Interfaces -/

/-- A kind of proxy. -/
structure Proxy where
  /-- What tells this kind of proxy from others. -/
  name : String
  /-- The interface that it speaks. -/
  descriptor : String
  deriving DecidableEq, Repr

/-- A proxy made from a handle. -/
structure Interface where
  /-- Its kind. -/
  proxy : Proxy
  /-- The handle it works with. -/
  handle : BinderHandle
  deriving DecidableEq, Repr

/-- A handle as diagnostics show it. -/
def BinderHandle.text (h : BinderHandle) : String :=
  s!"BinderHandle \x7b kind: {h.kind}, flags: {h.flags}, object: {h.object}, " ++
    s!"cookie: {h.cookie} \x7d"

/-- A proxy as diagnostics show it. -/
def Interface.text (i : Interface) : String :=
  s!"Interface \x7b descriptor: \"" ++ i.proxy.descriptor ++ "\", binder: " ++ i.handle.text ++
    " \x7d"

/-- The factories for proxies. A factory gives the handle that the proxy works with. -/
structure InterfaceRegistry where
  /-- The factory of each kind of proxy that has one. -/
  factories : List (Proxy × (BinderHandle → BinderHandle))

namespace InterfaceRegistry

/-- No factories. -/
def empty : InterfaceRegistry :=
  ⟨[]⟩

/-- Registers a factory, in place of one already there. -/
def register (r : InterfaceRegistry) (proxy : Proxy) (factory : BinderHandle → BinderHandle) :
    InterfaceRegistry :=
  ⟨(proxy, factory) :: r.factories.filter fun entry => entry.1 ≠ proxy⟩

/-- Whether a kind of proxy has a factory. -/
def contains (r : InterfaceRegistry) (proxy : Proxy) : Bool :=
  r.factories.any fun entry => entry.1 = proxy

/-- The proxy made from a handle, if its kind has a factory. -/
def resolve? (r : InterfaceRegistry) (proxy : Proxy) (handle : BinderHandle) :
    Option Interface :=
  (r.factories.find? fun entry => entry.1 = proxy).map fun entry =>
    ⟨proxy, entry.2 handle⟩

/-- A registry as diagnostics show it. -/
def text (r : InterfaceRegistry) : String :=
  s!"InterfaceRegistry \x7b factories: {r.factories.length} \x7d"

end InterfaceRegistry

/-! ## Fields -/

/-- The ways to register a field. Described types are referred to by their full names. -/
inductive FieldKind where
  /-- A single value, which may be absent if it is optional. -/
  | value (kind : ValueKind) (optional : Bool)
  /-- A list of generic values. -/
  | list (element : ElementKind)
  /-- A map of generic values. -/
  | map (keyKind valueKind : ElementKind)
  /-- An object, which may be absent. -/
  | object (type : String)
  /-- An array of objects, any of which may be missing. -/
  | objectArray (type : String)
  /-- A list of objects. -/
  | objectList (type : String)
  /-- A map from generic values to objects. -/
  | objectMap (key : ElementKind) (type : String)
  /-- A handle that becomes a proxy, which may be absent. -/
  | interface (proxy : Proxy)

namespace FieldKind

/-- What a field of this kind declares that it holds. -/
def shape : FieldKind → Shape
  | .value kind _ => kind.shape
  | .list element => .list element.shape
  | .map k v => .map k.shape v.shape
  | .object type => .object type
  | .objectArray type => .array (.object type)
  | .objectList type => .list (.object type)
  | .objectMap k type => .map k.shape (.object type)
  | .interface proxy => .interface proxy.descriptor

end FieldKind

end TaggedParcel
