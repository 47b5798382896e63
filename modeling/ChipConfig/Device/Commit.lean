import ChipConfig.Device.EepromStream

/-!
# Committing registers

A chip can copy its live registers into its own EEPROM.  It is told so by bits of two registers: one
starts a calibration, one selects the page, and one starts the copy, after the EEPROM has been
unlocked.
-/

namespace ChipConfig

/-- The bits that make a chip copy its registers into its EEPROM. -/
structure CommitSequence where
  calibrationRegister : Address
  calibrationBit : Nat
  commitRegister : Address
  pageBit : Nat
  commitBit : Nat
deriving DecidableEq, Repr

namespace CommitSequence

def cdce6214 : CommitSequence where
  calibrationRegister := 0x00
  calibrationBit := 4
  commitRegister := 0x03
  pageBit := 9
  commitBit := 10

def singleBit (bit : Nat) : Except EepromError Word :=
  if bit < 64 then .ok (BitVec.twoPow 64 bit)
  else .error (.bit (.indexOutOfRange bit 64))

/-- Starts a calibration, selects the page, unlocks the EEPROM and starts the copy, the page still
being selected. -/
def run {σ : Type} (sequence : CommitSequence) (interface : EepromInterface) (device : Device σ) :
    Session σ EepromError Unit := do
  let live ← EepromInterface.readWord device sequence.calibrationRegister
  let calibration ← Session.ofExcept (singleBit sequence.calibrationBit)
  EepromInterface.writeWord device sequence.calibrationRegister (live ||| calibration)
  let page ← Session.ofExcept (singleBit sequence.pageBit)
  EepromInterface.writeWord device sequence.commitRegister page
  interface.unlock device
  let commit ← Session.ofExcept (singleBit sequence.commitBit)
  EepromInterface.writeWord device sequence.commitRegister (page ||| commit)

end CommitSequence

end ChipConfig
