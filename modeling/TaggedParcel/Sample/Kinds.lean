import TaggedParcel.Schema.Basic

set_option relaxedAutoImplicit false
set_option autoImplicit false

/-!
# Sample types: kinds of their own

The sample types between them use every kind of field, every option and every fault. Some of
them need kinds with a meaning of their own, which are here, and ways to write declarations
down.

## Main definitions

* `Sample.flaky`, `Sample.stamp` — refined kinds of single values.
* `Sample.odd`, `Sample.fake`, `Sample.floats` — refined kinds of elements.
* `Sample.callbacks`, `Sample.unregistered` — kinds of proxies.
* `Sample.fresh`, `Sample.abstract`, `Sample.filled` — declarations.
-/

namespace TaggedParcel.Sample

/-! ## Single values -/

/-- A single value that is always there. -/
def plain (kind : PlainKind) : FieldKind :=
  .value (.plain kind) false

/-- A single value that may be absent. -/
def optional (kind : PlainKind) : FieldKind :=
  .value (.plain kind) true

/-- What is read for a flaky number: a hundred is a null, and numbers above the limit on elements
are refused. -/
def readFlaky (limits : Limits) (n : Int32) : Except FieldError (Option FieldValue) :=
  if n = 100 then
    .ok none
  else if n.toInt > limits.maxElements then
    .error (.invalidBundle n.toUInt32)
  else
    .ok (some (.int n))

/-- A number that is not always written and not always read: one is absent, negative numbers
fail once they are written, and reading has `readFlaky`'s exceptions. -/
def flaky : RefinedValue where
  carrier := .int
  shape := .string
  zero := .int 0
  isAbsent
    | .int n => n = 1
    | _ => false
  toPayload _ v := v
  objection?
    | .int n => if n < 0 then some (.unsupported "a negative flaky") else none
    | _ => none
  ofPayload _ limits
    | .int n => readFlaky limits n
    | v => .ok (some v)

/-- A text that gets the names of the types by which it is written and read. -/
def stamp : RefinedValue where
  carrier := .string
  shape := .string
  zero := .string ""
  isAbsent _ := false
  toPayload type
    | .string text => .string (text ++ "<" ++ type)
    | v => v
  objection? _ := none
  ofPayload type _
    | .string text => .ok (some (.string (text ++ ">" ++ type)))
    | v => .ok (some v)

/-! ## Elements -/

/-- A number that is written as a null if it is zero and as a long if it is negative. It is
read from an int or a null. -/
def odd : RefinedElement where
  shape := .int
  toValue
    | .int n => if n = 0 then .null else if n < 0 then .long n.toInt64 else .int n
    | v => v
  ofValue
    | .int n => .ok (.int n)
    | .null => .ok (.int 0)
    | v => .error (.typeMismatch "odd" v.kindName)

/-- A number that declares itself a point. -/
def fake (root : String) : RefinedElement where
  shape := .object (root ++ "Point")
  toValue v := v
  ofValue v := ElementKind.int.ofValue v

/-- An element whose shape no list or map can carry. -/
def floats : RefinedElement where
  shape := .array .float
  toValue v := v
  ofValue v := .error (.typeMismatch "floats" v.kindName)

/-! ## Proxies -/

/-- A kind of proxy that there is a factory for. -/
def callbacks : Proxy :=
  ⟨"Callbacks", "com.example.ICallbacks"⟩

/-- A kind of proxy that there is no factory for. -/
def unregistered : Proxy :=
  ⟨"Unregistered", "com.example.IUnregistered"⟩

/-- The factories of the sample types: callbacks work with the handle they come from. -/
def interfaces : InterfaceRegistry :=
  InterfaceRegistry.empty.register callbacks id

/-! ## Declarations -/

/-- A type without fresh instances. -/
def abstract (path : String) (rename : Option String) (registrations : List Registration) :
    TypeDecl :=
  ⟨path, rename, registrations, none⟩

/-- A type whose fresh instances have some members other than zero. -/
def filled (path : String) (rename : Option String) (registrations : List Registration)
    (members : List (UInt16 × Member)) : TypeDecl :=
  let blank := (abstract path rename registrations).blank
  ⟨path, rename, registrations,
    some (members.foldl (fun o entry => o.set entry.1 entry.2) blank)⟩

/-- A type whose fresh instances are blank. -/
def fresh (path : String) (rename : Option String) (registrations : List Registration) :
    TypeDecl :=
  filled path rename registrations []

end TaggedParcel.Sample
