import SampleData.Decimal.Binary64
import SampleData.Text.Numeral

/-!
# A fixed number of places

A quotient with a given number of places behind the point. The exact value is rounded once, and a
half goes to the even neighbour.
-/

namespace SampleData.Decimal

open Text

/-- `num / den` with `places` digits behind the point, at least one place. -/
def fixedText (places num den : Nat) : String :=
  let n := roundHalfEven (num * Nat.pow 10 places) den
  let behind := natDigits (n % Nat.pow 10 places)
  String.ofList (natDigits (n / Nat.pow 10 places) ++ '.' ::
    (List.replicate (places - behind.length) '0' ++ behind))

end SampleData.Decimal
