import ChipConfig.Decimal.Shortest

/-!
# Decimal notation

A decimal is written positionally, digits around a point, or in scientific notation, one digit
before the point and a power of ten behind.  These are the parts of both; what stands between them
is up to the format that uses them.
-/

namespace ChipConfig.Decimal

namespace Scaled

def digitChars (number : Scaled) : List Char :=
  Nat.toDigits 10 number.digits

/-- The exponent of the first digit. -/
def magnitude (number : Scaled) : Int :=
  (number.digitChars.length : Int) - 1 + number.exponent

/-- The digits before and after the point.  There is at least one before it. -/
def positional (number : Scaled) : List Char × List Char :=
  let digits := number.digitChars
  if 0 ≤ number.exponent then
    (digits ++ List.replicate number.exponent.toNat '0', [])
  else
    let places := (-number.exponent).toNat
    if places < digits.length then
      digits.splitAt (digits.length - places)
    else
      (['0'], List.replicate (places - digits.length) '0' ++ digits)

end Scaled

/-- The shortest plain notation of a floating-point number: no exponent and no point in a whole
number.  Of two decimals equally near the larger one is written; a negative zero keeps its sign. -/
def plainText (x : Double) : String :=
  let sign := if x.isNegative then "-" else ""
  if x.isNaN then
    "NaN"
  else if !x.isFinite then
    sign ++ "inf"
  else if x.isZero then
    sign ++ "0"
  else
    match (shortest .up (Binary.ofDouble x)).positional with
    | (whole, []) => sign ++ String.ofList whole
    | (whole, places) => sign ++ String.ofList whole ++ "." ++ String.ofList places

end ChipConfig.Decimal
