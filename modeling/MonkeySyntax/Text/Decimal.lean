/-!
# Decimal numerals
-/

namespace MonkeySyntax

/-- The number that a run of decimal digits denotes. -/
def decimalValue (digits : List Char) : Nat :=
  digits.foldl (fun value digit => 10 * value + (digit.toNat - '0'.toNat)) 0

/-- The number that a text denotes if it consists of decimal digits, one at least. -/
def decimal? (text : String) : Option Nat :=
  let digits := text.toList
  if digits ≠ [] ∧ digits.all Char.isDigit then some (decimalValue digits) else none

end MonkeySyntax
