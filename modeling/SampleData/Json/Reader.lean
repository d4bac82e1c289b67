import SampleData.Json.Number
import SampleData.Json.Quoted

/-!
# Reading JSON text

The text is strict JSON, its only blanks space, tab, line feed and carriage return. What is made of
its parts is up to a builder, which also says how deep they may stand inside one another; a part of
which the builder can make nothing ends the reading like a flaw of form, so that the first fault of
a text is found whatever its sort.
-/

namespace SampleData.Json

open Text

/-! ## Blanks and words -/

/-- The blanks of JSON. -/
def isSpace (c : Char) : Bool := c = ' ' || c = '\t' || c = '\n' || c = '\r'

/-- The text without the blanks it starts with. -/
def skipSpace (cs : List Char) : List Char := cs.dropWhile isSpace

/-- The rest behind a word. -/
def readWord : List Char → List Char → Except Fault (List Char)
  | [], cs => .ok cs
  | _ :: _, [] => refuse .endInValue []
  | w :: word, c :: cs => if c = w then readWord word cs else refuse .unknownWord (c :: cs)

/-! ## Numbers -/

/-- The values of the digits a text starts with, and the rest. -/
def spanDigits : List Char → List Nat × List Char
  | [] => ([], [])
  | c :: cs =>
    match digitValue? c with
    | some d => (d :: (spanDigits cs).1, (spanDigits cs).2)
    | none => ([], c :: cs)

/-- Refuses a number that has no digit at a place. -/
def refuseNumber {α : Type} (place : Place) : Except Fault α :=
  refuse (if place.isEmpty then .endInValue else .malformedNumber) place

/-- The digits before the point: a zero stands alone. -/
def readWhole (cs : List Char) : Except Fault (List Nat × List Char) :=
  match spanDigits cs with
  | ([], rest) => refuseNumber rest
  | (0 :: _ :: _, _) => refuseNumber (cs.drop 1)
  | (ds, rest) => .ok (ds, rest)

/-- The digits behind the point, if there is one. -/
def readFraction : List Char → Except Fault (Option (List Nat) × List Char)
  | '.' :: cs =>
    match spanDigits cs with
    | ([], rest) => refuseNumber rest
    | (ds, rest) => .ok (some ds, rest)
  | cs => .ok (none, cs)

/-- The sign of an exponent, which may be missing. -/
def readSign : List Char → Bool × List Char
  | '-' :: cs => (true, cs)
  | '+' :: cs => (false, cs)
  | cs => (false, cs)

/-- The letter before an exponent. -/
def isExponentMark (c : Char) : Bool := c = 'e' || c = 'E'

/-- The exponent, if there is one. -/
def readExponent (cs : List Char) : Except Fault (Option Int × List Char) :=
  match cs with
  | [] => .ok (none, [])
  | c :: rest =>
    if isExponentMark c then
      match spanDigits (readSign rest).2 with
      | ([], rest) => refuseNumber rest
      | (ds, after) =>
        let n : Nat := ds.foldl (fun acc d => 10 * acc + d) 0
        .ok (some (if (readSign rest).1 then -(n : Int) else n), after)
    else .ok (none, cs)

/-- A number literal behind its sign. -/
def readUnsigned (negative : Bool) (cs : List Char) : Except Fault (NumberLiteral × List Char) := do
  let (whole, rest) ← readWhole cs
  let (fraction, rest) ← readFraction rest
  let (exponent, rest) ← readExponent rest
  return ({ negative := negative, whole := whole, fraction := fraction,
            exponent := exponent }, rest)

/-- A number literal. -/
def readNumber : List Char → Except Fault (NumberLiteral × List Char)
  | '-' :: rest => readUnsigned true rest
  | cs => readUnsigned false cs

/-- The rest behind the digits of an exponent, or behind the one that makes it greater than any
exponent may be; `n` is the exponent so far. -/
def behindExponent (n : Nat) : List Char → Place
  | [] => []
  | c :: cs =>
    match digitValue? c with
    | some d =>
      if NumberLiteral.maxExponent < 10 * n + d then cs else behindExponent (10 * n + d) cs
    | none => c :: cs

/-- The place where a number that starts at `start` and ends before `rest` is found too large. -/
def hugeAt (l : NumberLiteral) (start rest : Place) : Place :=
  if l.exponent.isNone then rest
  else behindExponent 0 (readSign ((start.dropWhile fun c => !isExponentMark c).drop 1)).2

/-! ## Values -/

/-- What is made of the parts of a text: `κ` of the keys and `α` of the values. -/
structure Builder (κ α : Type) where
  /-- How many arrays and objects may stand inside one another, if there is a bound. -/
  depth : Option Nat
  null : α
  bool : Bool → α
  /-- Nothing is made of a number that is too large. -/
  number : NumberLiteral → Option α
  text : Content → Except Fault α
  key : Content → Except Fault κ
  array : List α → α
  object : List (κ × α) → α

/-- How deep the parts of an array or an object may be, if the whole may stand at all. -/
def inside : Option Nat → Option (Option Nat)
  | none => some none
  | some 0 => none
  | some (depth + 1) => some (some depth)

namespace Builder

variable {κ α : Type} (b : Builder κ α)

/-- A string behind its opening quote. -/
def readText (cs : List Char) : Except Fault (α × List Char) := do
  let (content, rest) ← readString none cs
  return (← b.text content, rest)

/-- A key behind its opening quote, and the colon that follows it. -/
def readKey (cs : List Char) : Except Fault (κ × List Char) := do
  let (content, rest) ← readString none cs
  let key ← b.key content
  match skipSpace rest with
  | ':' :: rest => return (key, rest)
  | [] => refuse .endInObject []
  | other => refuse .missingColon other

/-- A number, or what stands in place of a value. -/
def readOther (cs : List Char) : Except Fault (α × List Char) :=
  match cs with
  | [] => refuse .endInValue []
  | c :: _ =>
    if c = '-' || (digitValue? c).isSome then do
      let (l, rest) ← readNumber cs
      match b.number l with
      | some a => return (a, rest)
      | none => refuseBefore .hugeNumber (hugeAt l cs rest)
    else refuse .missingValue cs

mutual

/-- A value, the blanks before it included, and the rest. Each step down or along takes one from
`steps`; two for each character are enough. -/
def readValue (steps : Nat) (depth : Option Nat) (cs : List Char) :
    Except Fault (α × List Char) :=
  match steps with
  | 0 => refuse .endInValue []
  | steps + 1 =>
    match skipSpace cs with
    | 'n' :: rest => (readWord ['u', 'l', 'l'] rest).map fun rest => (b.null, rest)
    | 't' :: rest => (readWord ['r', 'u', 'e'] rest).map fun rest => (b.bool true, rest)
    | 'f' :: rest => (readWord ['a', 'l', 's', 'e'] rest).map fun rest => (b.bool false, rest)
    | '"' :: rest => b.readText rest
    | '[' :: rest =>
      match inside depth with
      | none => refuse .tooDeep ('[' :: rest)
      | some depth =>
        match skipSpace rest with
        | [] => refuse .endInArray []
        | ']' :: after => .ok (b.array [], after)
        | start => (readItems steps depth start).map fun p => (b.array p.1, p.2)
    | '\x7b' :: rest =>
      match inside depth with
      | none => refuse .tooDeep ('\x7b' :: rest)
      | some depth =>
        match skipSpace rest with
        | [] => refuse .endInObject []
        | '\x7d' :: after => .ok (b.object [], after)
        | start => (readMembers steps depth start).map fun p => (b.object p.1, p.2)
    | start => b.readOther start

/-- The items of an array from one of them on, the closing bracket included. -/
def readItems (steps : Nat) (depth : Option Nat) (cs : List Char) :
    Except Fault (List α × List Char) :=
  match steps with
  | 0 => refuse .endInValue []
  | steps + 1 => do
    let (v, rest) ← readValue steps depth cs
    match skipSpace rest with
    | [] => refuse .endInArray []
    | ']' :: after => return ([v], after)
    | ',' :: after =>
      match skipSpace after with
      | ']' :: more => refuse .commaAtEnd (']' :: more)
      | start => (readItems steps depth start).map fun p => (v :: p.1, p.2)
    | other => refuse .brokenArray other

/-- The members of an object from one of them on, the closing brace included. -/
def readMembers (steps : Nat) (depth : Option Nat) (cs : List Char) :
    Except Fault (List (κ × α) × List Char) :=
  match steps, cs with
  | 0, _ => refuse .endInValue []
  | _, [] => refuse .endInValue []
  | steps + 1, '"' :: rest => do
    let (key, rest) ← b.readKey rest
    let (v, rest) ← readValue steps depth rest
    match skipSpace rest with
    | [] => refuse .endInObject []
    | '\x7d' :: after => return ([(key, v)], after)
    | ',' :: after =>
      match skipSpace after with
      | '\x7d' :: more => refuse .commaAtEnd ('\x7d' :: more)
      | start => (readMembers steps depth start).map fun p => ((key, v) :: p.1, p.2)
    | other => refuse .brokenObject other
  | _ + 1, other => refuse .missingKey other

end

/-- One value with blanks around it. -/
def readAll (cs : List Char) : Except Fault α := do
  let (a, rest) ← b.readValue (2 * cs.length + 2) b.depth cs
  match skipSpace rest with
  | [] => return a
  | other => refuse .moreText other

/-- What is made of a text. -/
def ofText (text : String) : Except SyntaxError α :=
  (b.readAll text.toList).mapError fun f => f.inText text.toList

end Builder

end SampleData.Json
