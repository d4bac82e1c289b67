import SampleData.Toml.Fault

/-!
# Quoted texts in TOML

A text stands in one quote or in three, and the quotes are double or single. Between single quotes
everything is taken as it stands; between double quotes a backslash starts an escape. Only three
quotes can hold line breaks: one directly behind the opening quotes is dropped, and a backslash at
the end of a line takes the break and all blanks behind it away.

Quotes of the same sort inside three quotes are text as long as fewer than three stand in a row.
At the end up to two more may stand before the closing ones.

Main definitions: `write` chooses the form in which a text needs the fewest escapes, `readQuoted`
reads all four.
-/

namespace SampleData.Toml

open Text

/-! ## Characters -/

/-- A character that may stand as it is in a text or a comment: tab, and all but the control
characters of ASCII. -/
def isPlain (c : Char) : Bool := c = '\t' || (0x20 ≤ c.toNat && c.toNat ≠ 0x7F)

/-- A blank inside a line. -/
def isSpace (c : Char) : Bool := c = ' ' || c = '\t'

/-- The text without the blanks it starts with. -/
def skipSpace (cs : List Char) : List Char := cs.dropWhile isSpace

/-- The rest behind a line break. -/
def readBreak : List Char → Option (List Char)
  | '\n' :: rest => some rest
  | '\r' :: '\n' :: rest => some rest
  | _ => none

/-! ## Writing -/

/-- The two sorts of quotes, standing alone or in threes. -/
inductive Quoting where
  | basic
  | literal
  | multiBasic
  | multiLiteral
deriving DecidableEq, Repr

/-- The length of the longest run of a character, when `run` of them stand before the text. -/
def longestRun (q : Char) (run : Nat) : List Char → Nat
  | [] => run
  | c :: cs => if c = q then longestRun q (run + 1) cs else max run (longestRun q 0 cs)

/-- A text that needs no escapes but for backslashes and quotes. -/
def isUncontrolled (cs : List Char) : Bool := cs.all fun c => isPlain c || c = '\n'

/-- The form in which a text is written: one quote rather than three, double quotes rather than
single ones, as long as nothing but tabs has to be escaped. -/
def Quoting.of (cs : List Char) : Quoting :=
  let bare := isUncontrolled cs
  let straight := bare && !cs.contains '\\'
  let broken := cs.contains '\n'
  if straight && !broken && !cs.contains '"' then .basic
  else if bare && !broken && !cs.contains '\x27' then .literal
  else if straight && longestRun '"' 0 cs ≤ 2 then .multiBasic
  else if bare && longestRun '\x27' 0 cs ≤ 2 then .multiLiteral
  else if broken then .multiBasic
  else .basic

/-- The uppercase hexadecimal digit of a value below sixteen. -/
def upperHexDigit (n : Nat) : Char := if n < 10 then Char.ofNat (48 + n) else Char.ofNat (55 + n)

/-- A character between double quotes, quotes and line breaks aside. -/
def writeChar (c : Char) : List Char :=
  if c = '\x08' then ['\\', 'b']
  else if c = '\t' then ['\\', 't']
  else if c = '\x0c' then ['\\', 'f']
  else if c = '\r' then ['\\', 'r']
  else if c = '\\' then ['\\', '\\']
  else if isPlain c then [c]
  else ['\\', 'u', '0', '0', upperHexDigit (c.toNat / 16), upperHexDigit (c.toNat % 16)]

/-- A text between double quotes that stand alone. -/
def writeBasic : List Char → List Char
  | [] => []
  | c :: cs =>
    if c = '"' then '\\' :: '"' :: writeBasic cs
    else if c = '\n' then '\\' :: 'n' :: writeBasic cs
    else writeChar c ++ writeBasic cs

/-- A text between three double quotes, `run` of which stand directly before it. Every third one
in a row is escaped. -/
def writeMultiBasic (run : Nat) : List Char → List Char
  | [] => []
  | c :: cs =>
    if c = '"' then
      if run = 2 then '\\' :: '"' :: writeMultiBasic 0 cs else '"' :: writeMultiBasic (run + 1) cs
    else if c = '\n' then '\n' :: writeMultiBasic 0 cs
    else writeChar c ++ writeMultiBasic 0 cs

/-- The line break behind three opening quotes, for a text of several lines. -/
def openingBreak (cs : List Char) : List Char := if cs.contains '\n' then ['\n'] else []

/-- A text in a given form. -/
def writeAs (cs : List Char) : Quoting → List Char
  | .basic => '"' :: (writeBasic cs ++ ['"'])
  | .literal => '\x27' :: (cs ++ ['\x27'])
  | .multiBasic =>
    ['"', '"', '"'] ++ openingBreak cs ++ writeMultiBasic 0 cs ++ ['"', '"', '"']
  | .multiLiteral =>
    ['\x27', '\x27', '\x27'] ++ openingBreak cs ++ cs ++ ['\x27', '\x27', '\x27']

/-- A text in quotes. -/
def write (cs : List Char) : List Char := writeAs cs (.of cs)

/-! ## Reading -/

/-- What is read of a text, and the rest. -/
abbrev TextReading := Reading (List Char × List Char)

/-- Puts a character before what is read. -/
def pushChar (c : Char) : TextReading → TextReading := Except.map fun p => (c :: p.1, p.2)

/-- Puts the character of an escape before what is read; if there is no such character, the text is
broken at a place. -/
def pushChar? (c : Option Char) (place : Place) (x : TextReading) : TextReading :=
  match c with
  | some c => pushChar c x
  | none => .error (.broken place)

/-- The character of an escape of one letter. -/
def shortEscape? (c : Char) : Option Char :=
  if c = '"' ∨ c = '\\' then some c
  else if c = 'b' then some '\x08'
  else if c = 't' then some '\t'
  else if c = 'n' then some '\n'
  else if c = 'f' then some '\x0c'
  else if c = 'r' then some '\r'
  else none

/-- The place where an escape that does not exist is found out: behind its letter, or at it if it
takes more than one byte. -/
def behindLetter (c : Char) (rest : List Char) : Place := if c.toNat < 0x80 then rest else c :: rest

/-- The number of hexadecimal digits. -/
def hexNumber? (acc : Nat) : List Char → Option Nat
  | [] => some acc
  | c :: cs => (hexValue? c).bind fun d => hexNumber? (16 * acc + d) cs

/-- The character whose code point is given in hexadecimal. -/
def codePoint? (digits : List Char) : Option Char :=
  (hexNumber? 0 digits).bind fun n => if n.isValidChar then some (Char.ofNat n) else none

/-- A text behind its opening double quote, the closing one included. -/
def readBasic : List Char → TextReading
  | [] => .error (.broken [])
  | '"' :: rest => .ok ([], rest)
  | '\\' :: 'u' :: a :: b :: c :: d :: rest =>
    pushChar? (codePoint? [a, b, c, d]) (a :: b :: c :: d :: rest) (readBasic rest)
  | '\\' :: 'U' :: a :: b :: c :: d :: e :: f :: g :: h :: rest =>
    pushChar? (codePoint? [a, b, c, d, e, f, g, h]) (a :: b :: c :: d :: e :: f :: g :: h :: rest)
      (readBasic rest)
  | ['\\'] => .error (.broken ['\\'])
  | '\\' :: c :: rest => pushChar? (shortEscape? c) (behindLetter c rest) (readBasic rest)
  | c :: rest => if isPlain c then pushChar c (readBasic rest) else .error (.broken (c :: rest))

/-- A text behind its opening single quote, the closing one included. -/
def readLiteral : List Char → TextReading
  | [] => .error (.broken [])
  | '\x27' :: rest => .ok ([], rest)
  | c :: rest => if isPlain c then pushChar c (readLiteral rest) else .error (.broken (c :: rest))

/-- The quotes that end the text behind three in a row, and the rest: two at most. -/
def closingQuotes (q : Char) : List Char → List Char × List Char
  | c :: d :: rest =>
    if c = q then if d = q then ([q, q], rest) else ([q], d :: rest) else ([], c :: d :: rest)
  | [c] => if c = q then ([q], []) else ([], [c])
  | [] => ([], [])

/-- A backslash stands before the text, and nothing but blanks between it and the line's end. -/
def endsLine (cs : List Char) : Bool := (readBreak (skipSpace cs)).isSome

/-- A text behind three opening double quotes, the closing ones included. While `folding`, blanks
and line breaks are dropped. -/
def readMultiBasic (folding : Bool) : List Char → TextReading
  | [] => .error (.broken [])
  | '"' :: '"' :: '"' :: rest => .ok (closingQuotes '"' rest)
  | ['"', '"'] => .error (.broken ['"', '"'])
  | ['"'] => .error (.broken ['"'])
  | '\\' :: 'u' :: a :: b :: c :: d :: rest =>
    pushChar? (codePoint? [a, b, c, d]) (a :: b :: c :: d :: rest) (readMultiBasic false rest)
  | '\\' :: 'U' :: a :: b :: c :: d :: e :: f :: g :: h :: rest =>
    pushChar? (codePoint? [a, b, c, d, e, f, g, h]) (a :: b :: c :: d :: e :: f :: g :: h :: rest)
      (readMultiBasic false rest)
  | ['\\'] => .error (.broken ['\\'])
  | '\\' :: c :: rest =>
    if endsLine (c :: rest) then readMultiBasic true (c :: rest)
    else pushChar? (shortEscape? c) (behindLetter c rest) (readMultiBasic false rest)
  | '\r' :: '\n' :: rest =>
    if folding then readMultiBasic true rest else pushChar '\n' (readMultiBasic false rest)
  | c :: rest =>
    if folding && (isSpace c || c = '\n') then readMultiBasic true rest
    else if isPlain c || c = '\n' then pushChar c (readMultiBasic false rest)
    else .error (.broken (c :: rest))

/-- A text between three single quotes goes on with a character that may stand there. -/
def goesOn : List Char → Bool
  | [] => false
  | c :: cs => isPlain c || (readBreak (c :: cs)).isSome

/-- A text behind three opening single quotes, the closing ones included. Fewer than three in a row
are text only if something comes behind them. -/
def readMultiLiteral : List Char → TextReading
  | [] => .error (.broken [])
  | '\x27' :: '\x27' :: '\x27' :: rest => .ok (closingQuotes '\x27' rest)
  | '\r' :: '\n' :: rest => pushChar '\n' (readMultiLiteral rest)
  | c :: rest =>
    if c = '\x27' && !goesOn (rest.dropWhile (· = '\x27')) then .error (.broken (c :: rest))
    else if isPlain c || c = '\n' then pushChar c (readMultiLiteral rest)
    else .error (.broken (c :: rest))

/-- The text without the line break it starts with. -/
def dropBreak (cs : List Char) : List Char := (readBreak cs).getD cs

/-- A text in quotes, and the rest. -/
def readQuoted : List Char → TextReading
  | '"' :: '"' :: '"' :: rest => readMultiBasic false (dropBreak rest)
  | '"' :: rest => readBasic rest
  | '\x27' :: '\x27' :: '\x27' :: rest => readMultiLiteral (dropBreak rest)
  | '\x27' :: rest => readLiteral rest
  | other => .error (.absent other)

end SampleData.Toml
