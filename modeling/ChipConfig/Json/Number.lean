import ChipConfig.Decimal.Notation
import ChipConfig.Text.Numeral

/-!
# JSON numbers

A number keeps the digits it was written with.  Only what reads it decides whether it is to be an
integer, which has to be written without point and exponent, or a floating-point number.

A floating-point number takes as many digits as fit 64 bits and scales them by a power of ten, at
most three times with one rounding each; digits beyond count by their place only.  That is not
always the nearest double, but it is exact for the short decimals that people write.
-/

namespace ChipConfig.Json

structure Exponent where
  negative : Bool
  digits : List Char
deriving DecidableEq, Repr

/-- The power of ten that an exponent adds, if it is below `2 ^ 31`. -/
def Exponent.power? (exponent : Exponent) : Option Int :=
  (Numeral.bounded? 10 2147483648 exponent.digits).map fun (power : Nat) ↦
    if exponent.negative then -(power : Int) else power

/-- A number as it is written: digits, digits after a point, and an exponent. -/
structure Number where
  negative : Bool
  whole : List Char
  fraction : Option (List Char)
  exponent : Option Exponent
deriving DecidableEq, Repr

namespace Number

/-- The value of a number that is written as an integer without sign and is below a bound. -/
def natural? (bound : Nat) (number : Number) : Option Nat :=
  if number.negative || number.fraction.isSome || number.exponent.isSome then
    none
  else
    Numeral.bounded? 10 bound number.whole

def ofNat (n : Nat) : Number :=
  ⟨false, Numeral.decimalChars n, none, none⟩

/-- Takes digits behind a significand while the result fits 64 bits; the digits left over. -/
def absorb (significand : Nat) : List Char → Nat × List Char
  | [] => (significand, [])
  | c :: rest =>
    let next := significand * 10 + (c.toNat - '0'.toNat)
    if next < UInt64.size then absorb next rest else (significand, c :: rest)

def powerOfTen (power : Nat) : Float :=
  Float.ofScientific 1 false power

/-- A magnitude times a power of ten, none if it is too large.  Powers beyond the largest double are
divided off in steps. -/
def scale? (magnitude : Float) (power : Int) : Option Float :=
  if 0 ≤ power then
    if power ≤ 308 then
      let scaled := magnitude * powerOfTen power.toNat
      if scaled.isInf then none else some scaled
    else if magnitude == 0 then
      some magnitude
    else
      none
  else if -308 ≤ power then
    some (magnitude / powerOfTen (-power).toNat)
  else if magnitude == 0 then
    some magnitude
  else
    scale? (magnitude / powerOfTen 308) (power + 308)
termination_by power.natAbs

def magnitude? (number : Number) : Option Float :=
  let (significand, dropped) := absorb 0 number.whole
  let fraction := number.fraction.getD []
  let (significand, kept) := absorb significand fraction
  let places : Int := (dropped.length : Int) - ((fraction.length : Int) - kept.length)
  let value := significand.toUInt64.toFloat
  match number.exponent with
  | none => scale? value places
  | some exponent =>
    match exponent.power? with
    | some power => scale? value (places + power)
    | none => if significand = 0 ∨ exponent.negative then some 0 else none

/-- The value of a number, none if its magnitude is too large. -/
def double? (number : Number) : Option Double :=
  number.magnitude?.map fun magnitude ↦
    Double.ofFloat (if number.negative then -magnitude else magnitude)

/-- A finite floating-point number as it is written: its shortest decimal, the even one of two that
are equally near, positionally from `0.00001` up to sixteen digits before the point and with an
exponent otherwise.  A whole number gets a zero behind the point. -/
def ofDouble (x : Double) : Number :=
  if x.isZero then
    ⟨x.isNegative, ['0'], some ['0'], none⟩
  else
    let decimal := Decimal.shortest .even (Decimal.Binary.ofDouble x)
    let magnitude := decimal.magnitude
    if -5 ≤ magnitude ∧ magnitude < 16 then
      let (whole, fraction) := decimal.positional
      ⟨x.isNegative, whole, some (if fraction.isEmpty then ['0'] else fraction), none⟩
    else
      let (first, others) := decimal.digitChars.splitAt 1
      ⟨x.isNegative, first, if others.isEmpty then none else some others,
        some ⟨magnitude < 0, Numeral.decimalChars magnitude.natAbs⟩⟩

def chars (number : Number) : List Char :=
  let fraction :=
    match number.fraction with
    | none => []
    | some digits => '.' :: digits
  let exponent :=
    match number.exponent with
    | none => []
    | some exponent => 'e' :: (if exponent.negative then '-' else '+') :: exponent.digits
  (if number.negative then ['-'] else []) ++ number.whole ++ fraction ++ exponent

end Number

end ChipConfig.Json
