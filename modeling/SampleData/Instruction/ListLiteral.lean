import SampleData.Text.Blank
import SampleData.Text.Cut

/-!
# List literals

A list of an instruction stands in brackets, its elements divided by commas. An element in quotes
is taken as it stands, commas, brackets and the other quote included, and may be empty; an element
without quotes loses the blanks at its ends and does not count if nothing is left. The scan goes
from left to right and stops at the first element that offends.

There are no escapes: an element that holds both quotes can be written only without quotes.
-/

namespace SampleData.Instruction

open Text

/-! ## What can be wrong with a list -/

/-- Why a text is no list. -/
inductive ListFault where
  /-- One of the two brackets is missing. -/
  | unclosed
  /-- A quoted element has no closing quote; the quote it opens with. -/
  | unterminatedQuote (quote : Char)
  /-- Something else than a comma follows a quoted element; the text from there on. -/
  | strayText (rest : String)
  /-- No element counts. -/
  | empty
deriving DecidableEq, Repr

/-- The fault in words. -/
def ListFault.message : ListFault → String
  | .unclosed => "list is missing its closing ']'"
  | .unterminatedQuote q => "unterminated quote in element starting with " ++ q.toString
  | .strayText rest => "unexpected text after quoted element: '" ++ rest ++ "'"
  | .empty => "list cannot be empty"

/-! ## The scan -/

/-- The two quotes. -/
def isQuote (c : Char) : Bool := c = '"' || c = '\x27'

/-- An element without quotes counts only if something is left of it. -/
def bareElement (cs : List Char) : List String :=
  let kept := trimChars cs
  if kept.isEmpty then [] else [String.ofList kept]

/-- The elements between the brackets, from left to right. -/
def scanElements (cs : List Char) : Except ListFault (List String) :=
  match _hc : dropBlanks cs with
  | [] => .ok []
  | c :: rest =>
    if isQuote c then
      match _hq : cutAtFirst c rest with
      | none => .error (.unterminatedQuote c)
      | some (body, after) =>
        match _ha : dropBlanks after with
        | [] => .ok [String.ofList body]
        | d :: more =>
          if d = ',' then (scanElements more).map (String.ofList body :: ·)
          else .error (.strayText (String.ofList (d :: more)))
    else
      match _hb : cutAtFirst ',' (c :: rest) with
      | none => .ok (bareElement (c :: rest))
      | some (body, more) => (scanElements more).map (bareElement body ++ ·)
termination_by cs.length
decreasing_by
  · have h1 := length_dropBlanks_le cs
    have h2 := length_lt_of_cutAtFirst _hq
    have h3 := length_dropBlanks_le after
    rw [_hc, List.length_cons] at h1
    rw [_ha, List.length_cons] at h3
    omega
  · have h1 := length_dropBlanks_le cs
    have h2 := length_lt_of_cutAtFirst _hb
    rw [_hc, List.length_cons] at h1
    rw [List.length_cons] at h2
    omega

/-- The text between an opening bracket and the closing bracket that ends it. -/
def betweenBrackets? (cs : List Char) : Option (List Char) :=
  (stripStart ['['] cs).bind (stripLast ']')

/-- The elements of a list. -/
def readList (text : String) : Except ListFault (List String) :=
  match betweenBrackets? text.toList with
  | none => .error .unclosed
  | some inner =>
    match scanElements inner with
    | .error e => .error e
    | .ok items => if items.isEmpty then .error .empty else .ok items

/-- A list that was read holds something. -/
theorem ne_nil_of_readList {text : String} {items : List String}
    (h : readList text = .ok items) : items ≠ [] := by
  unfold readList at h
  split at h
  · cases h
  · split at h
    · cases h
    · next kept _ =>
      split at h
      · cases h
      · next hk =>
        cases h
        simpa using hk

end SampleData.Instruction
