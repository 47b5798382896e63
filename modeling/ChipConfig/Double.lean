/-!
# Double-precision numbers

A double is kept as its 64 bits: a sign, eleven bits of exponent and a fraction.  The bits tell
everything apart that can be told apart, the two zeros and the many patterns that stand for no
number, so doubles are plain data.  To be reckoned with, a double is turned into a `Float`.
-/

namespace ChipConfig

/-- A double-precision floating-point number by its bits. -/
structure Double where
  bits : UInt64
deriving DecidableEq, Inhabited, Repr

namespace Double

def toFloat (x : Double) : Float :=
  Float.ofBits x.bits

def ofFloat (x : Float) : Double :=
  ⟨x.toBits⟩

instance : Zero Double := ⟨⟨0⟩⟩

/-- How many fractions there are for each exponent: `2 ^ 52`. -/
def fractionCount : Nat := 4503599627370496

/-- The exponent that infinity has, and every pattern that stands for no number. -/
def topExponent : Nat := 2047

/-- Whether the sign is negative, for a zero, too. -/
def isNegative (x : Double) : Bool :=
  x.bits.toNat.testBit 63

def exponent (x : Double) : Nat :=
  x.bits.toNat / fractionCount % (topExponent + 1)

def fraction (x : Double) : Nat :=
  x.bits.toNat % fractionCount

def isFinite (x : Double) : Bool :=
  x.exponent != topExponent

def isNaN (x : Double) : Bool :=
  x.exponent == topExponent && x.fraction != 0

/-- Whether the double is a zero of either sign. -/
def isZero (x : Double) : Bool :=
  x.exponent == 0 && x.fraction == 0

/-- Whether two doubles stand for the same number.  The two zeros do, and what stands for no number
does not agree even with itself. -/
def agrees (x y : Double) : Bool :=
  !x.isNaN && (x == y || (x.isZero && y.isZero))

end Double

end ChipConfig
