import ChipConfig.Text.Blank
import ChipConfig.Text.Numeral
import ChipConfig.Word

/-!
# Bit sources

Every bit of an image word comes from somewhere: it is fixed, or it shows one bit of a register, or
nobody looks at it.  A table writes a source as a token, and `BitSource.token` writes the token that
`BitSource.ofToken?` reads back.
-/

namespace ChipConfig

structure RegisterBit where
  register : Address
  bit : UInt32
deriving DecidableEq, Repr

namespace RegisterBit

/-- Register bits are ordered by their register, those of one register by their number. -/
instance : Ord RegisterBit :=
  ⟨compareLex (compareOn register) (compareOn bit)⟩

instance : Std.TransOrd RegisterBit :=
  inferInstanceAs (Std.TransCmp (compareLex (compareOn register) (compareOn bit)))

instance : Std.LawfulEqOrd RegisterBit where
  eq_of_compare {a b} h := by
    have h : (compareLex (compareOn register) (compareOn bit)) a b = .eq := h
    obtain ⟨hregister, hbit⟩ := compareLex_eq_eq.1 h
    cases a; cases b
    simp only [compareOn] at hregister hbit
    simp [Std.LawfulEqCmp.eq_of_compare hregister, Std.LawfulEqCmp.eq_of_compare hbit]

end RegisterBit

/-- Where a bit of an image word comes from. -/
inductive BitSource where
  /-- A fixed bit, checked when the image is read back. -/
  | constant (value : Bool)
  | register (place : RegisterBit)
  /-- A reserved or check bit: written as zero and not looked at when the image is read back. -/
  | ignored
deriving DecidableEq, Repr

namespace BitSource

def number? (cs : List Char) : Option UInt32 :=
  (Numeral.bounded? 10 UInt32.size cs).map UInt32.ofNat

/-- Whether a token stands for a bit that is not looked at: `X`, `-`, `RSVD`, `RESERVED`, or
anything with `CRC` in it. -/
def isIgnoredToken (token : List Char) : Bool :=
  let letters := Text.upper token
  token = ['-'] || letters = ['X'] || Text.occursIn ['C', 'R', 'C'] letters ||
    letters = "RSVD".toList || letters = "RESERVED".toList

/-- The register bit that a token such as `R3[9]` names. -/
def registerBit? (token : List Char) : Option RegisterBit := do
  let reference ←
    match token with
    | 'R' :: rest => some rest
    | 'r' :: rest => some rest
    | _ => none
  let (registerToken, rest) ← Text.splitFirst? '[' reference
  let bitToken ← Text.stripLast? ']' rest
  return ⟨← number? registerToken, ← number? bitToken⟩

def ofChars? (token : List Char) : Option BitSource :=
  if token = ['0'] then some (constant false)
  else if token = ['1'] then some (constant true)
  else if isIgnoredToken token then some ignored
  else (registerBit? token).map register

def ofToken? (token : String) : Option BitSource :=
  ofChars? token.toList

def tokenChars : BitSource → List Char
  | constant false => ['0']
  | constant true => ['1']
  | register place =>
    'R' :: Numeral.decimalChars place.register.toNat ++
      '[' :: Numeral.decimalChars place.bit.toNat ++ [']']
  | ignored => ['X']

def token (source : BitSource) : String :=
  String.ofList source.tokenChars

def registerBit : BitSource → Option RegisterBit
  | register place => some place
  | _ => none

end BitSource

end ChipConfig
