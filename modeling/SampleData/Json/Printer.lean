import SampleData.Decimal.Shortest
import SampleData.Json
import SampleData.Text.Numeral

/-!
# Compact JSON text

Writing is done in pieces, since a buffer that is filled piece by piece shows where one ends: each
of `{ } [ ] , : "` is a piece of its own, so are a number, a word and an escape, and a run of
characters without escapes is one piece. The text is the pieces one after the other; it has no
blanks.

Strings escape the quote, the backslash and the characters below U+0020, and no others. A double
is written with the fewest digits that read back, a NaN or an infinity as `null`.
-/

namespace SampleData.Json

open Text

/-! ## Strings -/

/-- How a character is escaped, if it is. -/
def escape? (c : Char) : Option String :=
  if c = '"' then some "\\\""
  else if c = '\\' then some "\\\\"
  else if c = '\x08' then some "\\b"
  else if c = '\x0c' then some "\\f"
  else if c = '\n' then some "\\n"
  else if c = '\r' then some "\\r"
  else if c = '\t' then some "\\t"
  else if c.toNat < 0x20 then
    some (String.ofList ['\\', 'u', '0', '0', hexDigit (c.toNat / 16), hexDigit (c.toNat % 16)])
  else none

/-- A character that is written as it stands. -/
def isPlain (c : Char) : Bool := (escape? c).isNone

/-- The pieces of a string's characters. -/
def characterPieces (cs : List Char) : List String :=
  match cs with
  | [] => []
  | c :: rest =>
    match escape? c with
    | some e => e :: characterPieces rest
    | none =>
      String.ofList (c :: rest.takeWhile isPlain) :: characterPieces (rest.dropWhile isPlain)
termination_by cs.length
decreasing_by
  · simp
  · have h := List.dropWhile_sublist (l := rest) isPlain |>.length_le
    simp only [List.length_cons]
    omega

/-- The pieces of a string. -/
def stringPieces (s : String) : List String :=
  "\"" :: (characterPieces s.toList ++ ["\""])

/-! ## Doubles -/

/-- Where positional notation begins and ends: from `10 ^ leastPlain` up to below
`10 ^ firstRaised`. -/
structure DoubleFormat where
  leastPlain : Int
  firstRaised : Int

/-- Positional from `0.00001` up to below `10 ^ 16`. -/
def doubleFormat : DoubleFormat := { leastPlain := -5, firstRaised := 16 }

/-- Digits with a point after the first `n`. -/
def withPoint (ds : List Char) (n : Nat) : List Char :=
  ds.take n ++ '.' :: ds.drop n

/-- A decimal in the notation of the format. Positional text always has a point; an exponent
always has a sign. -/
def decimalText (fmt : DoubleFormat) (x : Decimal.Scientific) : List Char :=
  let ds := natDigits x.digits
  if fmt.leastPlain ≤ x.exponent ∧ x.exponent < fmt.firstRaised then
    if x.exponent < 0 then
      '0' :: '.' :: (List.replicate (x.exponent.natAbs - 1) '0' ++ ds)
    else if x.places ≤ x.exponent.toNat then
      ds ++ List.replicate (x.exponent.toNat - x.places) '0' ++ ['.', '0']
    else withPoint ds (x.exponent.toNat + 1)
  else
    (if x.places = 0 then ds else withPoint ds 1) ++ 'e' ::
      (if x.exponent < 0 then '-' else '+') :: natDigits x.exponent.natAbs

/-- The text of a double. -/
def doubleText (x : Binary64) : String :=
  match x.magnitude? with
  | none => "null"
  | some v =>
    let t := decimalText doubleFormat (Decimal.shortest v)
    String.ofList (if x.isNegative then '-' :: t else t)

/-! ## Values -/

/-- Lists of pieces with a comma between each two. -/
def separated : List (List String) → List String
  | [] => []
  | [p] => p
  | p :: ps => p ++ "," :: separated ps

/-- The pieces of an object, given those of its members' values. -/
def objectPieces (members : List (String × List String)) : List String :=
  "\x7b" :: (separated (members.map fun m => stringPieces m.1 ++ ":" :: m.2) ++ ["\x7d"])

/-- The pieces of an array, given those of its items. -/
def arrayPieces (items : List (List String)) : List String :=
  "[" :: (separated items ++ ["]"])

mutual

/-- The pieces of a value. -/
def pieces : Json → List String
  | .null => ["null"]
  | .bool b => [if b then "true" else "false"]
  | .integer n => [showInt n]
  | .double x => [doubleText x]
  | .text s => stringPieces s
  | .array items => arrayPieces (piecesOfItems items)
  | .object members => objectPieces (piecesOfMembers members)

/-- The pieces of each item. -/
def piecesOfItems : List Json → List (List String)
  | [] => []
  | x :: xs => pieces x :: piecesOfItems xs

/-- The pieces of each member's value. -/
def piecesOfMembers : List (String × Json) → List (String × List String)
  | [] => []
  | (k, x) :: ms => (k, pieces x) :: piecesOfMembers ms

end

/-- The compact text of a value. -/
def render (x : Json) : String :=
  String.join (pieces x)

end SampleData.Json
