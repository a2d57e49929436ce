/-!
# Decimal numbers

The value of decimal digits, and the numbers among them that fit in 64 bits.
-/

namespace CodeImpact.Text

/-- The value of decimal digits; none for an empty text or another character. -/
def decimal? (digits : List Char) : Option Nat :=
  if digits.isEmpty || !digits.all Char.isDigit then none
  else some (digits.foldl (fun n c => 10 * n + (c.toNat - 48)) 0)

/-- The least number that does not fit in 64 bits. -/
def wordBound : Nat := 18446744073709551616

/-- The value of decimal digits, if it fits in 64 bits. -/
def word64? (digits : List Char) : Option UInt64 :=
  (decimal? digits).bind fun n => if n < wordBound then some (UInt64.ofNat n) else none

/-- The value of decimal digits that may have a `+` in front, if it fits in 64 bits. -/
def plusWord64? : List Char → Option UInt64
  | '+' :: digits => word64? digits
  | digits => word64? digits

end CodeImpact.Text
