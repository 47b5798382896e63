import ChipConfig.Width

/-!
# Layout errors

What can go wrong between registers and the words of an image.
-/

namespace ChipConfig

inductive LayoutError where
  /-- A bit is asked for that its register or word does not have. -/
  | bit (cause : BitError)
  /-- A word needs a register that is not configured, and such registers are refused. -/
  | missingRegister (address register : Address)
  | missingWord (address : Address)
  | widthMismatch (expected found : Nat)
deriving DecidableEq, Repr

def LayoutError.message : LayoutError → String
  | bit cause => cause.message
  | missingRegister address register =>
    s!"word {Numeral.hex address.toNat} references register {Numeral.hex register.toNat}, " ++
      "which is not configured"
  | missingWord address => s!"image has no word at address {Numeral.hex address.toNat}"
  | widthMismatch expected found =>
    s!"image is {found} bits wide, the bit map expects {expected}"

end ChipConfig
