import SampleData.Instruction.ListLiteral
import SampleData.Text.Numeral

/-!
# Field instructions

An instruction is `kind:strategy`, divided at its first colon. The strategy is told apart by how
it starts: nothing, `rand`, `rand(`, `[`, or anything else, which is a constant. A bracket
promises a list and must keep the promise here; a range is only recognised, and its bounds are
read when the kind is known to be a number.
-/

namespace SampleData.Instruction

open Text

/-! ## The two parts -/

/-- The kind without the blanks around it, and the strategy as it stands. -/
def split (instruction : String) : Option (String × String) :=
  (cutAtFirst ':' instruction.toList).map fun p =>
    (String.ofList (trimChars p.1), String.ofList p.2)

/-! ## Strategies by their look -/

/-- What a strategy looks like. -/
inductive Token where
  | empty
  | random
  /-- What stands after `rand(`. -/
  | range (arguments : String)
  | list (items : List String)
  | literal (text : String)
deriving DecidableEq, Repr

/-- The look of a strategy; blanks at its ends do not count. -/
def classify (strategy : String) : Except ListFault Token :=
  let s := trim strategy
  if s.isEmpty then .ok .empty
  else if s = "rand" then .ok .random
  else match stripStart "rand(".toList s.toList with
    | some arguments => .ok (.range (String.ofList arguments))
    | none =>
      if s.toList.head? = some '[' then (readList s).map .list
      else .ok (.literal s)

/-- What looks like a list holds something. -/
theorem ne_nil_of_classify_list {strategy : String} {items : List String}
    (h : classify strategy = .ok (.list items)) : items ≠ [] := by
  simp only [classify] at h
  split at h
  · cases h
  · split at h
    · cases h
    · split at h
      · cases h
      · split at h
        · cases hr : readList (trim strategy) with
          | error e => simp [hr, Except.map] at h
          | ok kept =>
            simp only [hr, Except.map, Except.ok.injEq, Token.list.injEq] at h
            exact h ▸ ne_nil_of_readList hr
        · cases h

/-! ## Range bounds -/

/-- Why a text holds no range. -/
inductive RangeFault where
  | unclosed
  /-- There is no comma; the text between the brackets. -/
  | notTwoBounds (inner : String)
  /-- A bound is no number; the bound without the blanks around it. -/
  | notInteger (bound : String)
  | reversed (low high : Int64)
deriving DecidableEq, Repr

/-- The fault in words. -/
def RangeFault.message : RangeFault → String
  | .unclosed => "missing closing ')'"
  | .notTwoBounds inner => "expected two comma-separated bounds, got '" ++ inner ++ "'"
  | .notInteger bound => "bound '" ++ bound ++ "' is not an integer"
  | .reversed low high =>
    "lower bound (" ++ showInt64 low ++ ") must not exceed upper bound (" ++ showInt64 high ++ ")"

/-- A bound; the blanks around it do not count. -/
def readBound (cs : List Char) : Except RangeFault Int64 :=
  match readInt64? (trimChars cs) with
  | some n => .ok n
  | none => .error (.notInteger (String.ofList (trimChars cs)))

/-- The two bounds of what stands after `rand(`. The closing bracket comes last of all, the first
comma divides the bounds, and the lower one is looked at first. -/
def readRange (arguments : String) : Except RangeFault (Int64 × Int64) :=
  match stripLast ')' arguments.toList with
  | none => .error .unclosed
  | some inner =>
    match cutAtFirst ',' inner with
    | none => .error (.notTwoBounds (String.ofList inner))
    | some (a, b) =>
      match readBound a with
      | .error e => .error e
      | .ok low =>
        match readBound b with
        | .error e => .error e
        | .ok high => if high < low then .error (.reversed low high) else .ok (low, high)

/-- The bounds of a range that was read are not reversed. -/
theorem le_of_readRange {arguments : String} {low high : Int64}
    (h : readRange arguments = .ok (low, high)) : low ≤ high := by
  unfold readRange at h
  split at h
  · cases h
  · split at h
    · cases h
    · split at h
      · cases h
      · split at h
        · cases h
        · split at h
          · cases h
          · next hlt =>
            cases h
            exact Int64.not_lt.mp hlt

end SampleData.Instruction
