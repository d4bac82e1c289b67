import SampleData.Json.Fault

/-!
# Strings in JSON text

A string has a form, and it may hold halves of surrogate pairs that have no partner. Such a string
has the right form but is worth nothing; who asks for its characters gets the fault of its first
such half. A flaw of form behind that half comes second.
-/

namespace SampleData.Json

open Text

/-! ## Escapes -/

/-- The code unit of four hexadecimal digits. -/
def codeUnit? (a b c d : Char) : Option Nat :=
  match hexValue? a, hexValue? b, hexValue? c, hexValue? d with
  | some a, some b, some c, some d => some (4096 * a + 256 * b + 16 * c + d)
  | _, _, _, _ => none

/-- The first half of a surrogate pair. -/
def isHighSurrogate (n : Nat) : Bool := 0xD800 ≤ n && n ≤ 0xDBFF

/-- The second half of a surrogate pair. -/
def isLowSurrogate (n : Nat) : Bool := 0xDC00 ≤ n && n ≤ 0xDFFF

/-- The character of a surrogate pair. -/
def pairedChar (high low : Nat) : Char :=
  Char.ofNat (0x10000 + (high - 0xD800) * 0x400 + (low - 0xDC00))

/-- The character of an escape of one letter. -/
def shortEscape? (c : Char) : Option Char :=
  if c = '"' ∨ c = '\\' ∨ c = '/' then some c
  else if c = 'b' then some '\x08'
  else if c = 'f' then some '\x0c'
  else if c = 'n' then some '\n'
  else if c = 'r' then some '\r'
  else if c = 't' then some '\t'
  else none

/-! ## Strings -/

/-- What a string is worth: its characters, or the fault of the first surrogate that stands
alone. -/
abbrev Content := Except Fault (List Char)

/-- What is read of a string, and the rest. -/
abbrev StringReading := Except Fault (Content × List Char)

/-- Puts a character before what is read. -/
def pushChar (c : Char) : StringReading → StringReading :=
  Except.map fun p => (p.1.map (c :: ·), p.2)

/-- What is read behind a surrogate that stands alone. -/
def spoil (flaw : Flaw) (place : Place) (shown : Nat) : StringReading → StringReading
  | .error _ => .error { flaw := flaw, place := place, shown := shown }
  | .ok (_, rest) => .ok (.error { flaw := flaw, place := place, shown := shown }, rest)

/-- What is read at a place where a surrogate pair had to be completed, if `high` is its first
half. -/
def halfAlone (high : Option Nat) (place : Place) (x : StringReading) : StringReading :=
  if high.isSome then spoil .halfAlone place 1 x else x

/-- Refuses four hexadecimal digits. Four bytes are taken before they are looked at. -/
def refuseDigits (place : Place) : StringReading :=
  if (bytesOf place).length < 4 then refuse .endInString []
  else .error { flaw := .unknownEscape, place := place, shown := 4 }

/-- A string behind its opening quote, the closing one included. `high` is the first half of a
surrogate pair if that is what stands directly before. -/
def readString (high : Option Nat) : List Char → StringReading
  | [] => refuse .endInString []
  | '"' :: rest => halfAlone high ('"' :: rest) (.ok (.ok [], rest))
  | '\\' :: 'u' :: a :: b :: c :: d :: rest =>
    match codeUnit? a b c d with
    | none => refuseDigits (a :: b :: c :: d :: rest)
    | some n =>
      match high with
      | some h =>
        if isLowSurrogate n then pushChar (pairedChar h n) (readString none rest)
        else spoil .unpairedHalf rest 0 (readString none rest)
      | none =>
        if isHighSurrogate n then readString (some n) rest
        else if isLowSurrogate n then spoil .unpairedHalf rest 0 (readString none rest)
        else pushChar (Char.ofNat n) (readString none rest)
  | '\\' :: 'u' :: rest => refuseDigits rest
  | ['\\'] => refuse .endInString []
  | '\\' :: c :: rest =>
    halfAlone high (c :: rest) <|
      match shortEscape? c with
      | none => refuse .unknownEscape (c :: rest)
      | some e => pushChar e (readString none rest)
  | c :: rest =>
    halfAlone high (c :: rest) <|
      if c.toNat < 0x20 then refuse .controlCharacter (c :: rest)
      else pushChar c (readString none rest)

end SampleData.Json
