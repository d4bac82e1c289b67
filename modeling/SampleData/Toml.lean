import SampleData.Text.Position

/-!
# TOML values and tables

A document is a table of tables and values. While it is read a table also knows how it came to be,
since that decides what may still be put into it: a table with a header of its own has all its keys
in one place, a table that only lies on the way to another may still get its header, a table that
dotted keys make may get more dotted keys, and a table in braces is closed.

Keys and values know where they stand, so that who makes use of a document can say where it does
not fit. Numbers with a fraction and moments are recognised and not kept: no setting holds one.
-/

namespace SampleData

open Text

/-- How a table came to be. -/
inductive TableForm where
  /-- By a header of its own; also the document itself. -/
  | header
  /-- On the way to the table of a header. -/
  | implied
  /-- On the way of a dotted key. -/
  | dotted
  /-- Written in braces. -/
  | inline
deriving DecidableEq, Repr

/-- A key and what stands under it. -/
structure Entry (α : Type) where
  key : String
  keyPlace : Place
  value : α
  /-- Where the value starts, or its header; a table that only lies on the way starts nowhere. -/
  valuePlace : Option Place
deriving Repr

/-- The place that a fault in a value is laid to: that of its key if it has none itself. -/
def Entry.place {α : Type} (e : Entry α) : Place := e.valuePlace.getD e.keyPlace

/-- A value or a table. -/
inductive Toml where
  | text (s : String)
  | integer (n : Int)
  | float
  | boolean (b : Bool)
  | moment
  | array (items : List (Place × Toml))
  | table (form : TableForm) (members : List (Entry Toml))
  /-- Tables that headers in double brackets put one after the other. -/
  | tables (items : List (Place × List (Entry Toml)))

namespace Toml

/-- Keys with what they stand for. -/
abbrev Members := List (Entry Toml)

/-- A part of a dotted key. -/
structure KeyPart where
  name : String
  place : Place
deriving DecidableEq, Repr

/-- The parts of a key but the last one, and the last one. -/
abbrev Key := List KeyPart × KeyPart

/-- What stands under a key. -/
def get? (key : String) (ms : Members) : Option Toml :=
  (ms.find? fun e => e.key = key).map (·.value)

/-- Puts another value in the place of the one that stands under a key. -/
def replace (key : String) (v : Toml) (ms : Members) : Members :=
  ms.map fun e => if e.key = key then { e with value := v } else e

/-- Puts a value under a new key. -/
def append (part : KeyPart) (v : Toml) (place : Option Place) (ms : Members) : Members :=
  ms ++ [{ key := part.name, keyPlace := part.place, value := v, valuePlace := place }]

/-! ## Going down into tables -/

/-- Goes down a path and changes the table at its end; tables on the way are made if they are not
there. Dotted keys may not go through a table that has its own header, and nothing goes through a
value. Of several tables under one name the last is meant. -/
def descend (dotted : Bool) (change : TableForm → Members → Option Members) :
    List KeyPart → TableForm → Members → Option Members
  | [], form, ms => change form ms
  | part :: path, _, ms =>
    match get? part.name ms with
    | none =>
      let form := if dotted then TableForm.dotted else .implied
      (descend dotted change path form []).map fun sub => append part (.table form sub) none ms
    | some (.table form sub) =>
      if form = .inline ∨ (dotted ∧ form = .header) then none
      else (descend dotted change path form sub).map fun sub =>
        replace part.name (.table form sub) ms
    | some (.tables items) =>
      match items.getLast? with
      | none => none
      | some (place, last) =>
        (descend dotted change path .header last).map fun sub =>
          replace part.name (.tables (items.dropLast ++ [(place, sub)])) ms
    | some _ => none

/-- A key, what is to stand under it, and where that starts. -/
structure Pair where
  key : Key
  value : Toml
  place : Place

/-- Puts a value under a dotted key. The table it goes into must be of dotted keys exactly if the
key has dots, and must not have the key. -/
def insert (p : Pair) (form : TableForm) (ms : Members) : Option Members :=
  descend true
    (fun form ms =>
      if (form = .dotted) = p.key.1.isEmpty ∨ (get? p.key.2.name ms).isSome then none
      else some (append p.key.2 p.value p.place ms))
    p.key.1 form ms

/-- A table in braces, from its keys and values in order. -/
def ofPairs (acc : Members) : List Pair → Option Members
  | [] => some acc
  | p :: rest =>
    match insert p .inline acc with
    | none => none
    | some acc => ofPairs acc rest

/-! ## Documents -/

/-- The header of a table. -/
structure Header where
  key : Key
  /-- Where its bracket stands. -/
  place : Place
  /-- It stands in double brackets. -/
  repeated : Bool

/-- A document that is being read: what is complete, and the table that is being filled. -/
structure Draft where
  root : Members
  current : Members
  /-- The header of the current table; none for the document itself. -/
  header : Option Header

namespace Draft

/-- The draft of which nothing is read. -/
def start : Draft := { root := [], current := [], header := none }

/-- What is complete together with the current table. -/
def finish (d : Draft) : Option Members :=
  match d.header with
  | none => some d.current
  | some h =>
    descend false
      (fun _ ms =>
        match get? h.key.2.name ms, h.repeated with
        | some (.tables items), true =>
          some (replace h.key.2.name (.tables (items ++ [(h.place, d.current)])) ms)
        | none, true => some (append h.key.2 (.tables [(h.place, d.current)]) h.place ms)
        | none, false => some (append h.key.2 (.table .header d.current) h.place ms)
        | _, _ => none)
      h.key.1 .header d.root

/-- Puts a value into the current table. -/
def add (d : Draft) (p : Pair) : Option Draft :=
  (insert p .header d.current).map fun ms => { d with current := ms }

/-- The keys that a table on the way to others has so far, or nothing if the place is taken. -/
def waiting (key : String) (ms : Members) : Option Members :=
  match get? key ms with
  | none => some []
  | some (.table .implied sub) => some sub
  | some _ => none

/-- What the table at the end of a path has so far. -/
def begun (key : String) : List KeyPart → Members → Option Members
  | [], ms => waiting key ms
  | part :: path, ms =>
    match get? part.name ms with
    | none => some []
    | some (.table form sub) => if form = .inline then none else begun key path sub
    | some (.tables items) =>
      match items.getLast? with
      | none => none
      | some (_, last) => begun key path last
    | some _ => none

/-- Goes on with the table of a header in single brackets. -/
def openSingle (h : Header) (root : Members) : Option Draft :=
  match begun h.key.2.name h.key.1 root with
  | none => none
  | some current =>
    (descend false (fun _ ms => some (ms.filter fun e => e.key ≠ h.key.2.name)) h.key.1 .header
      root).map fun root => { root := root, current := current, header := h }

/-- Goes on with one more table of a header in double brackets. -/
def openRepeated (h : Header) (root : Members) : Option Draft :=
  (descend false
    (fun _ ms =>
      match get? h.key.2.name ms with
      | none | some (.tables _) => some ms
      | some _ => none)
    h.key.1 .header root).map fun root => { root := root, current := [], header := h }

/-- Goes on with the table of a header. -/
def openTable (d : Draft) (h : Header) : Option Draft :=
  d.finish.bind (if h.repeated then openRepeated h else openSingle h)

end Draft

end Toml

end SampleData
