import TaggedParcel.Inspect.Report
import TaggedParcel.Text.Json

set_option relaxedAutoImplicit false
set_option autoImplicit false

/-!
# The text of inspection reports

## Main definitions

* `InspectReport.toJson` — a report as a document.
* `InspectReport.text` — a report as indented lines.
-/

namespace TaggedParcel

mutual

/-- The document of an object. -/
def ObjectSummary.toJson : ObjectSummary → Json
  | ⟨offset, size, fields⟩ =>
    .obj [("offset", .num offset), ("size", .num size),
      ("fields", .arr (FieldSummary.toJsonList fields))]

/-- The member for an object that there may be. -/
def ObjectSummary.nestedMember : Option ObjectSummary → List (String × Json)
  | none => []
  | some object => [("nested", object.toJson)]

/-- The documents of fields. -/
def FieldSummary.toJsonList : List FieldSummary → List Json
  | [] => []
  | ⟨id, offset, size, format, scalar, nested⟩ :: rest =>
    .obj ([("id", .num id.toNat), ("offset", .num offset), ("size", .num size),
        ("format", .str format.name)] ++
      scalar.toList.map (fun n => ("scalar", .num n)) ++
      ObjectSummary.nestedMember nested) :: FieldSummary.toJsonList rest

end

/-- The indentation of a line. -/
def indentation (level : Nat) : String :=
  String.ofList (List.replicate (2 * level) ' ')

mutual

/-- The lines of fields, each ended by a line break. -/
def FieldSummary.lines (level : Nat) : List FieldSummary → List String
  | [] => []
  | ⟨id, offset, size, format, scalar, nested⟩ :: rest =>
    (indentation level ++ s!"field {id} @{offset}: {size} bytes {format.name}" ++
      (scalar.elim "" fun n => s!" = {n}") ++ "\n") ::
      ObjectSummary.lines level nested ++ FieldSummary.lines level rest

/-- The lines of an object inside a field, if there is one. -/
def ObjectSummary.lines (level : Nat) : Option ObjectSummary → List String
  | none => []
  | some ⟨_, size, fields⟩ =>
    (indentation (level + 1) ++ s!"object: {size} bytes\n") :: FieldSummary.lines (level + 2) fields

end

namespace InspectReport

/-- The document of a report. -/
def toJson (r : InspectReport) : Json :=
  .obj [("total_bytes", .num r.totalBytes), ("trailing_bytes", .num r.trailingBytes),
    ("field_count", .num r.fieldCount), ("max_depth", .num r.maxDepth),
    ("object", r.object.toJson)]

/-- The lines of a report, each ended by a line break. -/
def text (r : InspectReport) : String :=
  String.join
    (s!"object: {r.object.size} bytes ({r.fieldCount} fields, depth {r.maxDepth})\n" ::
      FieldSummary.lines 1 r.object.fields ++
      if r.trailingBytes > 0 then [s!"trailing: {r.trailingBytes} bytes\n"] else [])

end InspectReport

end TaggedParcel
