import ChipConfig.Double

/-!
# Shortest decimals

A floating-point number stands for every real number that rounds to it.  Among the decimals in that
interval the shortest one has the fewest digits and, of those, lies nearest to the number itself.
It is found on the coarsest grid of multiples of a power of ten that meets the interval; all
comparisons are between natural numbers, so they are exact.
-/

namespace ChipConfig.Decimal

/-- What happens when two neighbouring decimals lie equally near. -/
inductive Tie where
  /-- The larger one is taken. -/
  | up
  /-- The one with the even last digit is taken. -/
  | even
deriving DecidableEq, Repr

/-- A positive number `mantissa * 2 ^ exponent` and the numbers that round to it. -/
structure Binary where
  mantissa : Nat
  exponent : Int
  /-- Whether the next number below is only half a step away, as below a power of two. -/
  narrowBelow : Bool
deriving DecidableEq, Repr

def Binary.ofDouble (x : Double) : Binary :=
  if x.exponent = 0 then
    ⟨x.fraction, -1074, false⟩
  else
    ⟨x.fraction + Double.fractionCount, (x.exponent : Int) - 1075,
      x.fraction == 0 && decide (1 < x.exponent)⟩

/-- A decimal `digits * 10 ^ exponent`. -/
structure Scaled where
  digits : Nat
  exponent : Int
deriving DecidableEq, Repr

/-- A positive power of a base as a fraction of two natural numbers. -/
def powerRatio (base : Nat) (exponent : Int) : Nat × Nat :=
  if 0 ≤ exponent then (base.pow exponent.toNat, 1) else (1, base.pow (-exponent).toNat)

/-- The nearest multiple of `10 ^ power` in the interval of a number, if there is one.  The number
is measured in quarters of a step, `unit` of which make the same as `grid` times `10 ^ power`. -/
def nearestOnGrid? (tie : Tie) (number : Binary) (power : Int) : Option Nat :=
  let two := powerRatio 2 (number.exponent - 2)
  let ten := powerRatio 10 power
  let unit := two.1 * ten.2
  let grid := ten.1 * two.2
  let exact := 4 * number.mantissa * unit
  let lowest := (4 * number.mantissa - if number.narrowBelow then 1 else 2) * unit
  let highest := (4 * number.mantissa + 2) * unit
  let closed := number.mantissa % 2 = 0
  let inside (digits : Nat) : Bool :=
    if closed then lowest ≤ digits * grid && digits * grid ≤ highest
    else lowest < digits * grid && digits * grid < highest
  let below := exact / grid
  let above := below + 1
  match inside below, inside above with
  | false, false => none
  | true, false => some below
  | false, true => some above
  | true, true =>
    match compare (exact - below * grid) (above * grid - exact) with
    | .lt => some below
    | .gt => some above
    | .eq =>
      match tie with
      | .up => some above
      | .even => if below % 2 = 0 then some below else some above

/-- The shortest decimal that rounds to a positive number.  The exponents of the grids go down from
309, above every number, to -324, where each number has a point of the grid in its interval. -/
def shortest (tie : Tie) (number : Binary) : Scaled :=
  let found := (List.range 634).findSome? fun (step : Nat) ↦
    let power := 309 - (step : Int)
    (nearestOnGrid? tie number power).map fun digits ↦ Scaled.mk digits power
  found.getD ⟨0, 0⟩

end ChipConfig.Decimal
