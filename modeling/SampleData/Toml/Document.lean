import SampleData.Toml.Quoted
import SampleData.Toml.Scalar

/-!
# Reading TOML documents

A document is a list of lines, each of them empty, a header or a key with its value; a comment may
stand at the end of each. Values in brackets may go over several lines, values in braces may not.
Each line is put into the document as soon as it is read; one that does not fit is broken where it
starts.

A key has at most 79 parts, and at most 79 brackets and braces stand inside one another.
-/

namespace SampleData.Toml

open Text

/-! ## Blanks and comments -/

/-- The text without the blanks, line breaks and comments it starts with; `inside` a comment it
starts with the rest of one. A comment has to have a line break behind it. -/
def skipLines (inside : Bool) : List Char → Reading (List Char)
  | [] => if inside then .error (.absent []) else .ok []
  | '\r' :: '\n' :: rest => skipLines false rest
  | c :: rest =>
    if c = '\n' then skipLines false rest
    else if c = '\r' then .error (.absent rest)
    else if inside then if isPlain c then skipLines true rest else .error (.absent (c :: rest))
    else if isSpace c then skipLines false rest
    else if c = '#' then skipLines true rest
    else .ok (c :: rest)

/-- The rest behind a line break or at the end of the text. -/
def readBreakOrEnd (cs : List Char) : Reading (List Char) :=
  match cs, readBreak cs with
  | [], _ => .ok []
  | _, some rest => .ok rest
  | _, none => .error (.broken cs)

/-- The rest behind the end of a line, a comment before it included. -/
def readLineEnd (cs : List Char) : Reading (List Char) :=
  match skipSpace cs with
  | '#' :: rest => readBreakOrEnd (rest.dropWhile isPlain)
  | rest => readBreakOrEnd rest

/-! ## Keys -/

/-- A character of a key without quotes. -/
def isKeyChar (c : Char) : Bool :=
  ('a' ≤ c && c ≤ 'z') || ('A' ≤ c && c ≤ 'Z') || ('0' ≤ c && c ≤ '9') || c = '-' || c = '_'

/-- The name of a part of a key: in one quote, or a word. -/
def readName (cs : List Char) : Reading (String × List Char) :=
  match cs with
  | '"' :: rest => (readBasic rest).map fun p => (String.ofList p.1, p.2)
  | '\x27' :: rest => (readLiteral rest).map fun p => (String.ofList p.1, p.2)
  | _ =>
    match cs.takeWhile isKeyChar with
    | [] => .error (.absent cs)
    | word => .ok (String.ofList word, cs.dropWhile isKeyChar)

/-- A part of a key. -/
def readPartOfKey (cs : List Char) : Reading (KeyPart × List Char) :=
  (readName cs).map fun p => ({ name := p.1, place := cs }, p.2)

/-- The parts of a key with points between them, the blanks around it included. A point that has no
part behind it does not belong to the key. Each part takes one from `n`; the length of the text is
enough. -/
def readParts (n : Nat) (cs : List Char) : Reading (Key × List Char) :=
  match n with
  | 0 => .error (.absent cs)
  | n + 1 => do
    let (part, rest) ← readPartOfKey (skipSpace cs)
    match skipSpace rest with
    | '.' :: more =>
      orAbsent ((readParts n more).map fun p => ((part :: p.1.1, p.1.2), p.2))
        (.ok (([], part), '.' :: more))
    | more => return (([], part), more)

/-- How many parts a key has at most, and how many values stand inside one another. -/
def maxDepth : Nat := 79

/-- A key, the blanks around it included. -/
def readKey (cs : List Char) : Reading (Key × List Char) := do
  let (key, rest) ← readParts cs.length cs
  if key.1.length < maxDepth then return (key, rest) else throw (.absent cs)

/-! ## Values -/

/-- A way to read a value. -/
abbrev ValueReader := List Char → Reading (Toml × List Char)

/-- The items of an array up to the closing bracket. An item whose end is not found counts as
missing. Each takes one from `n`; the length of the text is enough. -/
def readItems (read : ValueReader) (n : Nat) (cs : List Char) :
    Reading (List (Place × Toml) × List Char) :=
  match n with
  | 0 => .error (.broken cs)
  | n + 1 => do
    match ← insist (skipLines false cs) with
    | ']' :: rest => return ([], rest)
    | start =>
      let (v, rest) ← orAbsent (read start) (.error (.broken start))
      match ← orAbsent (skipLines false rest) (.error (.broken start)) with
      | ',' :: more => (readItems read n more).map fun p => ((start, v) :: p.1, p.2)
      | ']' :: more => return ([(start, v)], more)
      | other => throw (.broken other)

/-- A key, an equals sign and a value. -/
def readPair (read : ValueReader) (cs : List Char) : Reading (Pair × List Char) := do
  let (key, rest) ← readKey cs
  match rest with
  | '=' :: rest =>
    let start := skipSpace rest
    let (v, rest) ← insist (read start)
    return ({ key := key, value := v, place := start }, rest)
  | other => throw (.broken other)

/-- Pairs with commas between them. A comma that has no pair behind it does not belong to them.
Each takes one from `n`; the length of the text is enough. -/
def readPairs (read : ValueReader) (n : Nat) (cs : List Char) : Reading (List Pair × List Char) :=
  match n with
  | 0 => .error (.absent cs)
  | n + 1 => do
    let (pair, rest) ← readPair read cs
    match skipSpace rest with
    | ',' :: more =>
      orAbsent ((readPairs read n more).map fun p => (pair :: p.1, p.2)) (.ok ([pair], ',' :: more))
    | more => return ([pair], more)

/-- A table behind its opening brace. -/
def readBraces (read : ValueReader) (cs : List Char) : Reading (Toml × List Char) := do
  let (pairs, rest) ← orAbsent (readPairs read cs.length cs) (.ok ([], skipSpace cs))
  match ofPairs [] pairs, rest with
  | some ms, '\x7d' :: more => return (.table .inline ms, more)
  | some _, other => throw (.broken other)
  | none, _ => throw (.broken cs)

/-- A value in which at most `depth` brackets and braces stand inside one another. -/
def readValue (depth : Nat) (cs : List Char) : Reading (Toml × List Char) :=
  match cs with
  | [] => .error (.absent [])
  | 't' :: 'r' :: 'u' :: 'e' :: rest => .ok (.boolean true, rest)
  | 'f' :: 'a' :: 'l' :: 's' :: 'e' :: rest => .ok (.boolean false, rest)
  | '[' :: rest =>
    match depth with
    | 0 => .error (.broken cs)
    | depth + 1 => (readItems (readValue depth) rest.length rest).map fun p => (.array p.1, p.2)
  | '\x7b' :: rest =>
    match depth with
    | 0 => .error (.broken cs)
    | depth + 1 => readBraces (readValue depth) rest
  | c :: _ =>
    if c = '"' ∨ c = '\x27' then
      (readQuoted cs).map fun p => (.text (String.ofList p.1), p.2)
    else if c = 't' ∨ c = 'f' then .error (.broken cs)
    else readScalar cs

/-! ## Lines -/

/-- What fits into a document, or the line that does not. -/
def fitting (start : Place) (d : Option Draft) : Reading Draft :=
  match d with
  | some d => .ok d
  | none => .error (.broken start)

/-- A header behind its opening brackets, up to the end of the line. -/
def readHeader (start : Place) (repeated : Bool) (cs : List Char) :
    Reading (Header × List Char) := do
  let (key, rest) ← readKey cs
  match rest, repeated with
  | ']' :: ']' :: more, true | ']' :: more, false =>
    return ({ key := key, place := start, repeated := repeated }, ← readLineEnd more)
  | other, _ => throw (.broken other)

/-- A line that says something, its end included, and the draft with it. -/
def readLine (d : Draft) (cs : List Char) : Reading (Draft × List Char) := do
  match cs with
  | ['['] => throw (.broken cs)
  | '[' :: '[' :: more =>
    let (header, rest) ← readHeader cs true more
    return (← fitting cs (d.openTable header), rest)
  | '[' :: more =>
    let (header, rest) ← readHeader cs false more
    return (← fitting cs (d.openTable header), rest)
  | _ =>
    let (pair, rest) ← readPair (readValue maxDepth) cs
    let rest ← readLineEnd rest
    return (← fitting cs (d.add pair), rest)

/-- A line that says nothing starts with this character. -/
def isIdle (c : Char) : Bool := c = '#' || c = '\n' || c = '\r'

/-- The draft with all the lines of a text. Each line takes one from `n`; one more than the length
of the text is enough. -/
def readLines (n : Nat) (d : Draft) (cs : List Char) : Reading Draft :=
  match n, skipSpace cs with
  | _, [] => .ok d
  | 0, start => .error (.broken start)
  | n + 1, c :: rest => do
    if isIdle c then readLines n d (← readLineEnd (c :: rest))
    else
      let (d, rest) ← readLine d (c :: rest)
      readLines n d rest

/-- The text without the mark of its byte order. -/
def dropByteOrderMark : List Char → List Char
  | '\uFEFF' :: rest => rest
  | cs => cs

/-- The table that a text stands for, or the place where it is broken. -/
def ofText (cs : List Char) : Except Place Members :=
  let text := dropByteOrderMark cs
  match readLines (text.length + 1) .start text with
  | .error f => .error f.place
  | .ok d =>
    match d.finish with
    | some ms => .ok ms
    | none => .error []

end SampleData.Toml
