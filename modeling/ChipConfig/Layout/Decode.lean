import ChipConfig.BitMap
import ChipConfig.Image
import ChipConfig.RegisterFile

/-!
# Reading images back

An image that has been read back is held against its bit map: a fixed bit that differs is a
mismatch, and a register bit that is set flips that bit of a register.  Starting from registers that
are all zero this recovers every register bit that the image shows.
-/

namespace ChipConfig

/-- A fixed bit that was read back wrong. -/
structure Mismatch where
  address : Address
  bitIndex : Nat
  expected : Bool
  actual : Bool
deriving DecidableEq, Repr

def Mismatch.text (mismatch : Mismatch) : String :=
  let place := s!"word {Numeral.hex mismatch.address.toNat} bit {mismatch.bitIndex}"
  s!"fixed bit mismatch at {place}: " ++
    s!"expected {mismatch.expected.toNat}, read {mismatch.actual.toNat}"

namespace Layout

/-- What a bit of an image that was read back tells. -/
inductive Finding where
  | mismatch (mismatch : Mismatch)
  | isSet (place : RegisterBit)
deriving DecidableEq, Repr

def Finding.mismatch? : Finding → Option Mismatch
  | mismatch m => some m
  | isSet _ => none

def Finding.place? : Finding → Option RegisterBit
  | mismatch _ => none
  | isSet place => some place

def findBit (registerWidth : Width) (address : Address) (word : Word) (bitIndex : Nat)
    (source : BitSource) : Except LayoutError (Option Finding) :=
  let actual := word.getLsbD bitIndex
  match source with
  | .ignored => .ok none
  | .constant expected =>
    if expected = actual then .ok none
    else .ok (some (.mismatch ⟨address, bitIndex, expected, actual⟩))
  | .register place =>
    if actual then
      match registerWidth.checkIndex place.bit.toNat with
      | .error cause => .error (.bit cause)
      | .ok _ => .ok (some (.isSet place))
    else
      .ok none

/-- What the bits of a word tell, the most significant bit first. -/
def findWord (registerWidth : Width) (image : Image) (bitMap : BitMap)
    (entry : Address × List BitSource) : Except LayoutError (List Finding) :=
  match image.get? entry.1 with
  | none => .error (.missingWord entry.1)
  | some word => do
    let findings ← entry.2.zipIdx.mapM fun (source, position) ↦
      findBit registerWidth entry.1 word (bitMap.wordBit position) source
    return findings.filterMap id

def findAll (registerWidth : Width) (image : Image) (bitMap : BitMap) :
    Except LayoutError (List Finding) := do
  if image.width ≠ bitMap.width then
    throw (.widthMismatch bitMap.width.bits image.width.bits)
  let findings ← bitMap.toList.mapM (findWord registerWidth image bitMap)
  return findings.flatten

def applyToggle (file : RegisterFile) (place : RegisterBit) : Except LayoutError RegisterFile :=
  match file.toggle place.register place.bit.toNat with
  | .error cause => .error (.bit cause)
  | .ok file => .ok file

/-- A register file after an image has been read into it, and the fixed bits that were wrong. -/
structure Decoded where
  registers : RegisterFile
  mismatches : List Mismatch
deriving DecidableEq

/-- Flips in a register file every bit that an image shows to be set. -/
def decodeInto (image : Image) (bitMap : BitMap) (file : RegisterFile) :
    Except LayoutError Decoded := do
  let findings ← findAll file.width image bitMap
  let registers ← (findings.filterMap Finding.place?).foldlM applyToggle file
  return ⟨registers, findings.filterMap Finding.mismatch?⟩

/-- The registers that an image shows.  Each register of which the bit map shows a bit has an entry,
zero if no bit of it is set. -/
def decode (image : Image) (bitMap : BitMap) (registerWidth : Width) :
    Except LayoutError Decoded :=
  decodeInto image bitMap
    (bitMap.referencedRegisters.foldl RegisterFile.touch (RegisterFile.empty registerWidth))

end Layout

end ChipConfig
