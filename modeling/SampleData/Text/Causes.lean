/-!
# Chains of causes

What went wrong is told from the outside in: what was to be done, and what kept it from being done,
as far down as is known. A cause is in words of the run's own, or in those that are said of a text
in JSON or TOML; who does not care for the latter can tell them apart.
-/

namespace SampleData.Text

/-- One link of the chain. -/
inductive Cause where
  | plain (text : String)
  /-- What is said of JSON, behind words that lead up to it. -/
  | json (lead detail : String)
  /-- What is said of TOML. -/
  | toml (detail : String)
deriving DecidableEq, Repr

/-- A cause in words. -/
def Cause.text : Cause → String
  | .plain text => text
  | .json lead detail => lead ++ detail
  | .toml detail => detail

/-- All causes in one line. -/
def joinCauses (causes : List Cause) : String := ": ".intercalate (causes.map Cause.text)

end SampleData.Text
