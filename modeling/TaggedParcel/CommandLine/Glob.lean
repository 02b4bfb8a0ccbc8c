set_option relaxedAutoImplicit false
set_option autoImplicit false

/-!
# Glob patterns

A pattern is compared with a whole text. A question mark stands for any character, a star for
any run of characters, and a set in brackets for one of its characters. Two stars stand for
whole directories; they have to be a whole component of the pattern. Separators are characters
like any other, except for two stars.

## Main definitions

* `Glob.Token`, `Glob.parse` — patterns.
* `Glob.PatternError` — why a text is no pattern.
* `Glob.isMatch` — whether a text fits.
-/

namespace TaggedParcel.Glob

/-- A range of characters, both ends included. -/
structure CharRange where
  first : Char
  last : Char
  deriving DecidableEq, Repr

/-- A part of a pattern. -/
inductive Token where
  /-- This character. -/
  | char (c : Char)
  /-- Any character. -/
  | anyChar
  /-- Any run of characters. -/
  | anyRun
  /-- Any run of whole directories. -/
  | anyDirectories
  /-- A character in one of the ranges. -/
  | within (ranges : List CharRange)
  /-- A character in none of the ranges. -/
  | except (ranges : List CharRange)
  deriving DecidableEq, Repr

/-- Why a text is no pattern. -/
inductive Fault where
  /-- Three stars or more. -/
  | tooManyStars
  /-- Two stars with something else in their component. -/
  | partialComponent
  /-- A bracket without a set. -/
  | invalidRange
  deriving DecidableEq, Repr

/-- A fault in a pattern, and about where it is. -/
structure PatternError where
  position : Nat
  fault : Fault
  deriving DecidableEq, Repr

/-- The wording of a fault. -/
def Fault.message : Fault → String
  | .tooManyStars => "wildcards are either regular `*` or recursive `**`"
  | .partialComponent => "recursive wildcards must form a single path component"
  | .invalidRange => "invalid range pattern"

/-- The wording of a fault with its position. -/
def PatternError.message (e : PatternError) : String :=
  s!"Pattern syntax error near position {e.position}: {e.fault.message}"

/-! ## Parsing -/

/-- The ranges of a set: a character, a minus sign and a character are a range, and any other
character is one of its own. -/
def parseRanges : List Char → List CharRange
  | first :: '-' :: last :: rest => ⟨first, last⟩ :: parseRanges rest
  | c :: rest => ⟨c, c⟩ :: parseRanges rest
  | [] => []

/-- Splits what is behind an opening bracket and perhaps its first characters into what comes
before the closing bracket and what comes behind it. -/
def splitAtBracket (chars : List Char) : Option (List Char × List Char) :=
  match chars.dropWhile (· != ']') with
  | [] => none
  | _ :: behind => some (chars.takeWhile (· != ']'), behind)

/-- What is between an opening bracket and its closing one, and what is behind. The first
character of a set is part of it even if it is a closing bracket. -/
def splitSet : List Char → Option (List Char × List Char)
  | '!' :: first :: rest =>
    (splitAtBracket rest).map fun (inside, behind) => ('!' :: first :: inside, behind)
  | '!' :: [] => none
  | first :: rest => (splitAtBracket rest).map fun (inside, behind) => (first :: inside, behind)
  | [] => none

/-- The token of what is between brackets. An exclamation mark in front turns the set around. -/
def Token.ofSet : List Char → Token
  | '!' :: chars => .except (parseRanges chars)
  | chars => .within (parseRanges chars)

/-- What follows two stars that begin behind `position` characters. They have to stand at the
start or behind a separator, and in front of a separator or the end. A separator behind them
belongs to them. -/
def parseDirectories (position : Nat) (before : Option Char) (rest : List Char) :
    Except PatternError (List Char) :=
  if before ≠ none ∧ before ≠ some '/' then
    .error ⟨position - 1, .partialComponent⟩
  else
    match rest with
    | [] => .ok []
    | '/' :: rest => .ok rest
    | _ => .error ⟨position + 2, .partialComponent⟩

/-- Two stars once more add nothing, unless they are the first thing repeated. -/
def pushDirectories (done : List Token) : List Token :=
  match done with
  | .anyDirectories :: _ :: _ => done
  | _ => .anyDirectories :: done

/-- Parses what is left of a pattern behind `position` characters, of which the last is `before`.
Every step takes a character at least, so `fuel` for the characters left is enough. -/
def parseFrom : (fuel : Nat) → (position : Nat) → (before : Option Char) → List Char →
    List Token → Except PatternError (List Token)
  | 0, _, _, _, done => .ok done.reverse
  | fuel + 1, position, before, chars, done =>
    match chars with
    | [] => .ok done.reverse
    | '?' :: rest => parseFrom fuel (position + 1) (some '?') rest (.anyChar :: done)
    | '*' :: rest =>
      let stars := 1 + (rest.takeWhile (· == '*')).length
      let behind := rest.dropWhile (· == '*')
      if stars > 2 then
        .error ⟨position + 2, .tooManyStars⟩
      else if stars = 2 then
        match parseDirectories position before behind, behind with
        | .error e, _ => .error e
        | .ok next, [] => parseFrom fuel (position + 2) (some '*') next (pushDirectories done)
        | .ok next, _ => parseFrom fuel (position + 3) (some '/') next (pushDirectories done)
      else
        parseFrom fuel (position + 1) (some '*') behind (.anyRun :: done)
    | '[' :: rest =>
      match splitSet rest with
      | some (inside, behind) =>
        parseFrom fuel (position + inside.length + 2) (some ']') behind
          (Token.ofSet inside :: done)
      | none => .error ⟨position, .invalidRange⟩
    | c :: rest => parseFrom fuel (position + 1) (some c) rest (.char c :: done)

/-- The tokens of a pattern. -/
def parse (pattern : String) : Except PatternError (List Token) :=
  parseFrom pattern.length 0 none pattern.toList []

/-! ## Matching

Tokens are compared with all ends of a text at once. The answers stand in a list, from that for
the whole text down to that for the empty one. -/

/-- Whether a character lies in one of the ranges. -/
def inRanges (ranges : List CharRange) (c : Char) : Bool :=
  ranges.any fun range => range.first ≤ c && c ≤ range.last

/-- Whether a character fits a token that stands for one. -/
def Token.admits : Token → Char → Bool
  | .char c, c' => c == c'
  | .anyChar, _ => true
  | .within ranges, c => inRanges ranges c
  | .except ranges, c => !inRanges ranges c
  | .anyRun, _ => false
  | .anyDirectories, _ => false

/-- The answers of no token: the empty text fits. -/
def fitsNothing (text : List Char) : List Bool :=
  text.map (fun _ => false) ++ [true]

/-- Whether an end has a first character that is admitted, and the rest of it fits. -/
def behindChar (admits : Char → Bool) : List Char → List Bool → List Bool
  | c :: text, _ :: fits => (admits c && fits.headD false) :: behindChar admits text fits
  | _, _ => [false]

/-- Whether an end or a shorter one fits. -/
def orShorter : List Bool → List Bool
  | [] => []
  | fit :: fits =>
    let shorter := orShorter fits
    (fit || shorter.headD false) :: shorter

/-- Whether the empty text fits, or what is behind some separator of an end. -/
def behindSeparator : List Char → List Bool → List Bool
  | c :: text, _ :: fits =>
    let shorter := behindSeparator text fits
    ((c == '/' && fits.headD false) || shorter.headD false) :: shorter
  | _, fits => fits

/-- The answers of a token and those behind it, from the answers of those behind it. -/
def Token.extend (token : Token) (text : List Char) (fits : List Bool) : List Bool :=
  match token with
  | .anyRun => orShorter fits
  | .anyDirectories => fits.zipWith (· || ·) (behindSeparator text fits)
  | token => behindChar token.admits text fits

/-- Whether a text fits tokens. -/
def isMatch (tokens : List Token) (text : List Char) : Bool :=
  (tokens.foldr (fun token fits => token.extend text fits) (fitsNothing text)).headD false

end TaggedParcel.Glob
