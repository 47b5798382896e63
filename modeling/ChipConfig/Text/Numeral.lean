/-!
# Numerals

Natural numbers written with the digits of a radix.  Reading accepts one leading `+` and any number
of leading zeros, takes letters of either case, and never wraps around: a numeral denotes exactly
one number, and a reader with a bound refuses the numerals that reach it.  Writing gives the
shortest numeral in lower case, or pads it with zeros.
-/

namespace ChipConfig

/-- How a number without a `0x` mark is to be read. -/
inductive Radix where
  | decimal
  | hex
deriving DecidableEq, Repr, Inhabited

def Radix.base : Radix → Nat
  | decimal => 10
  | hex => 16

namespace Numeral

def digitValue? (c : Char) : Option Nat :=
  if '0' ≤ c ∧ c ≤ '9' then some (c.toNat - '0'.toNat)
  else if 'a' ≤ c ∧ c ≤ 'z' then some (c.toNat - 'a'.toNat + 10)
  else if 'A' ≤ c ∧ c ≤ 'Z' then some (c.toNat - 'A'.toNat + 10)
  else none

/-- What a digit stands for, if the radix has that digit. -/
def digit? (base : Nat) (c : Char) : Option Nat :=
  (digitValue? c).filter (· < base)

/-- The positional value of a run of digits that continues a numeral of value `start`. -/
def valueFrom? (base : Nat) : Nat → List Char → Option Nat
  | start, [] => some start
  | start, c :: rest => do
    let d ← digit? base c
    valueFrom? base (start * base + d) rest

def digits? (base : Nat) : List Char → Option Nat
  | [] => none
  | cs => valueFrom? base 0 cs

/-- The value of a numeral: one or more digits after an optional plus sign. -/
def natural? (base : Nat) : List Char → Option Nat
  | '+' :: cs => digits? base cs
  | cs => digits? base cs

def bounded? (base bound : Nat) (cs : List Char) : Option Nat :=
  (natural? base cs).filter (· < bound)

/-- Takes off one leading `0x` or `0X`, if there is one. -/
def stripHexMark? : List Char → Option (List Char)
  | '0' :: 'x' :: cs => some cs
  | '0' :: 'X' :: cs => some cs
  | _ => none

/-- The value of a number token below `2 ^ 64`: hexadecimal after a `0x` mark, otherwise a numeral
of the given radix. -/
def word? (radix : Radix) (cs : List Char) : Option Nat :=
  match stripHexMark? cs with
  | some digits => bounded? 16 UInt64.size digits
  | none => bounded? radix.base UInt64.size cs

def hexChars (n : Nat) : List Char :=
  '0' :: 'x' :: Nat.toDigits 16 n

/-- A hexadecimal numeral with a `0x` mark and at least that many digits. -/
def paddedHexChars (minDigits n : Nat) : List Char :=
  let digits := Nat.toDigits 16 n
  '0' :: 'x' :: (List.replicate (minDigits - digits.length) '0' ++ digits)

def decimalChars (n : Nat) : List Char :=
  Nat.toDigits 10 n

def hex (n : Nat) : String :=
  String.ofList (hexChars n)

end Numeral

end ChipConfig
