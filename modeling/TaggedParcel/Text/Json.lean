import TaggedParcel.Text.Encoding

set_option relaxedAutoImplicit false
set_option autoImplicit false

/-!
# JSON text

Exports are JSON documents. The members of an object are written in the order given, which is
also the reason for a type of documents here: order is part of the output.

## Main definitions

* `Json` — a document.
* `Json.compact` — its text without blanks.
* `Json.pretty` — its text over several lines.
* `Json.sortKeys` — the document with the members of all objects in ascending order.
-/

namespace TaggedParcel

/-- A JSON document, with integers for numbers. -/
inductive Json where
  | null
  | bool (b : Bool)
  | num (n : Int)
  | str (text : String)
  | arr (items : List Json)
  | obj (members : List (String × Json))
  deriving Inhabited

namespace Json

/-- A character inside a quoted text. Quotes, backslashes and control characters are escaped. -/
def escapeChar (c : Char) : List Char :=
  if c = '"' then ['\\', '"']
  else if c = '\\' then ['\\', '\\']
  else if c.toNat = 8 then ['\\', 'b']
  else if c.toNat = 12 then ['\\', 'f']
  else if c = '\n' then ['\\', 'n']
  else if c = '\r' then ['\\', 'r']
  else if c = '\t' then ['\\', 't']
  else if c.toNat < 32 then '\\' :: 'u' :: Hex.digits 'a' 4 c.toNat []
  else [c]

/-- A quoted text. -/
def quote (text : String) : String :=
  String.ofList ('"' :: text.toList.flatMap escapeChar ++ ['"'])

mutual

/-- Appends the text of a document without blanks. -/
def appendCompact (out : String) : Json → String
  | .null => out ++ "null"
  | .bool b => out ++ if b then "true" else "false"
  | .num n => out ++ toString n
  | .str text => out ++ quote text
  | .arr items => appendCompactItems (out ++ "[") "" items ++ "]"
  | .obj members => appendCompactMembers (out ++ "\x7b") "" members ++ "\x7d"

/-- Appends the texts of the items of an array, with a separator in front of the first. -/
def appendCompactItems (out separator : String) : List Json → String
  | [] => out
  | item :: rest => appendCompactItems (appendCompact (out ++ separator) item) "," rest

/-- Appends the texts of the members of an object, with a separator in front of the first. -/
def appendCompactMembers (out separator : String) : List (String × Json) → String
  | [] => out
  | (key, value) :: rest =>
    appendCompactMembers (appendCompact (out ++ separator ++ quote key ++ ":") value) "," rest

end

/-- The text of a document without blanks. -/
def compact (json : Json) : String :=
  appendCompact "" json

/-- A new line with an indentation of two blanks a level. -/
def newLine (level : Nat) : String :=
  String.ofList ('\n' :: List.replicate (2 * level) ' ')

mutual

/-- Appends the text of a document over several lines, of which the first is indented already.
An empty array or object stays on its line. -/
def appendPretty (level : Nat) (out : String) : Json → String
  | .arr [] => out ++ "[]"
  | .arr items => appendPrettyItems (level + 1) (out ++ "[") "" items ++ newLine level ++ "]"
  | .obj [] => out ++ "\x7b\x7d"
  | .obj members =>
    appendPrettyMembers (level + 1) (out ++ "\x7b") "" members ++ newLine level ++ "\x7d"
  | json => appendCompact out json

/-- Appends the texts of the items of an array, each on a line of its own, with a separator in
front of the first. -/
def appendPrettyItems (level : Nat) (out separator : String) : List Json → String
  | [] => out
  | item :: rest =>
    appendPrettyItems level (appendPretty level (out ++ separator ++ newLine level) item) "," rest

/-- Appends the texts of the members of an object, each on a line of its own, with a separator
in front of the first. -/
def appendPrettyMembers (level : Nat) (out separator : String) : List (String × Json) → String
  | [] => out
  | (key, value) :: rest =>
    appendPrettyMembers level
      (appendPretty level (out ++ separator ++ newLine level ++ quote key ++ ": ") value) "," rest

end

/-- The text of a document over several lines. -/
def pretty (json : Json) : String :=
  appendPretty 0 "" json

mutual

/-- The document with the members of all objects in ascending order of their names. -/
def sortKeys : Json → Json
  | .arr items => .arr (sortItems items)
  | .obj members => .obj ((sortMembers members).mergeSort fun a b => a.1 ≤ b.1)
  | json => json

/-- The items of an array, with members in order. -/
def sortItems : List Json → List Json
  | [] => []
  | item :: rest => item.sortKeys :: sortItems rest

/-- The members of an object, with members inside them in order. -/
def sortMembers : List (String × Json) → List (String × Json)
  | [] => []
  | (key, value) :: rest => (key, value.sortKeys) :: sortMembers rest

end

end Json

end TaggedParcel
