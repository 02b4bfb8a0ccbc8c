import TaggedParcel.Frame.Header

set_option relaxedAutoImplicit false
set_option autoImplicit false

/-!
# The layout of a frame

Bytes can be walked without knowing the types that wrote them: the headers say where every
field lies, and a payload that starts with an object word may be an object of its own. Whether
it is one is found out by trying: a walk inside that fails leaves the payload opaque, unless it
failed at a limit.

## Main definitions

* `ObjectLayout`, `FieldLayout` — where an object's fields lie.
* `ObjectLayout.scan` — the layout of the object at the start of a buffer.
-/

namespace TaggedParcel

mutual

/-- Where the fields of an object lie. -/
structure ObjectLayout where
  /-- The offset of the object's header. -/
  offset : Nat
  /-- How many bytes its fields take. -/
  size : Nat
  /-- The offset behind its fields. -/
  stop : Nat
  /-- Its fields, in the order of the bytes. -/
  fields : List FieldLayout

/-- Where a field lies. -/
structure FieldLayout where
  /-- The field's id. -/
  id : UInt16
  /-- The offset of its header. -/
  offset : Nat
  /-- The offset of its payload. -/
  payloadOffset : Nat
  /-- The size of its payload. -/
  size : Nat
  /-- Where the header keeps the size. -/
  format : FieldFormat
  /-- The object at the start of the payload, if there is one. -/
  nested : Option ObjectLayout

end

namespace ObjectLayout

/-- Whether an object word stands at an offset. -/
def startsObject (bytes : Array UInt8) (offset : Nat) : Bool :=
  (bytes.extract offset (offset + 4)).toList == LittleEndian.digits 4 objectWord.toNat

/-- Tries to walk an object inside a payload. Only a crossed limit is passed on. -/
def probe (walk : Read FrameError ObjectLayout) (stop : Nat) :
    Read FrameError (Option ObjectLayout) := fun r =>
  match Read.within .buffer stop walk r with
  | .ok layout r => .ok (some layout) r
  | .error (.limit e) r => .error (.limit e) r
  | .error _ r => .ok none r

/-- One field of an object whose fields end at `stop`, with `walk` for an object inside it. -/
def scanField (walk : Read FrameError ObjectLayout) (stop : Nat) :
    Read FrameError FieldLayout := do
  let offset ← Read.position
  let header ← Read.fieldHeader
  let bytes := (← get).bytes
  let nested ←
    if header.format = .delimited ∧ startsObject bytes header.payloadStart then
      probe walk (min header.stop stop)
    else
      pure none
  Read.skipField header
  return ⟨header.id, offset, header.payloadStart, header.size, header.format, nested⟩

/-- The fields up to `stop`, behind those found so far, which come last first. Each takes at
least a word, so `fuel` for the bytes that are left is enough. -/
def scanFields (limits : Limits) (walk : Read FrameError ObjectLayout) (stop : Nat) :
    (fuel : Nat) → (count : Nat) → List FieldLayout → Read FrameError (List FieldLayout)
  | 0, _, done => pure done.reverse
  | fuel + 1, count, done => do
    if (← Read.position) < stop then
      if count ≥ limits.maxElements then
        throw (.limit ⟨.elements, limits.maxElements, count + 1⟩)
      let field ← scanField walk stop
      scanFields limits walk stop fuel (count + 1) (field :: done)
    else
      return done.reverse

/-- The object at the present position, with `levels` more levels of nesting allowed. -/
def scanFrame (limits : Limits) : (levels : Nat) → Read FrameError ObjectLayout
  | 0 => throw (.limit (.depth limits))
  | levels + 1 => do
    let offset ← Read.position
    let stop ← Read.objectHeader
    let start ← Read.position
    let fields ← Read.within .buffer stop
      (scanFields limits (scanFrame limits levels) stop (stop - start) 0 [])
    return ⟨offset, stop - start, stop, fields⟩

/-- The layout of the object at the start of a buffer. -/
def scan (bytes : Array UInt8) (limits : Limits) : Except FrameError ObjectLayout :=
  if bytes.size > limits.maxObjectBytes then
    .error (.limit ⟨.objectBytes, limits.maxObjectBytes, bytes.size⟩)
  else
    match scanFrame limits limits.maxDepth (.ofBytes bytes) with
    | .ok layout _ => .ok layout
    | .error e _ => .error e

end ObjectLayout

end TaggedParcel
