import ChipConfig.BitMap
import ChipConfig.Image
import ChipConfig.RegisterMap

/-!
# Building images

An image is built word by word: each bit is fixed, zero, or the register bit that the bit map names.
A reference to a register that is not writable is suspicious but no error, so it is listed as a
warning.
-/

namespace ChipConfig

/-- What to do when the bit map shows a register that has no entry. -/
inductive MissingPolicy where
  | zero
  | reject
deriving DecidableEq, Repr, Inhabited

/-- Why a reference to a register is suspicious. -/
inductive WarningKind where
  | notWritable (mode : AccessMode)
  | undeclared
deriving DecidableEq, Repr

/-- A suspicious reference: the bit of the image it stands at, and the register it names. -/
structure LayoutWarning where
  address : Address
  bitIndex : Nat
  register : Address
  kind : WarningKind
deriving DecidableEq, Repr

def LayoutWarning.text (warning : LayoutWarning) : String :=
  let place := s!"word {Numeral.hex warning.address.toNat} bit {warning.bitIndex}"
  let reason :=
    match warning.kind with
    | .notWritable mode => s!"which is {mode.text}"
    | .undeclared => "which the descriptor does not declare"
  s!"{place} references register {Numeral.hex warning.register.toNat}, {reason}"

namespace Layout

def warningKind? (map : RegisterMap) (register : Address) : Option WarningKind :=
  match map.mode? register with
  | some mode => if mode.isWritable then none else some (.notWritable mode)
  | none => some .undeclared

def wordWarnings (map : RegisterMap) (bitMap : BitMap) (address : Address)
    (sources : List BitSource) : List LayoutWarning :=
  sources.zipIdx.filterMap fun (source, position) ↦
    source.registerBit.bind fun place ↦
      (warningKind? map place.register).map fun kind ↦
        ⟨address, bitMap.wordBit position, place.register, kind⟩

/-- The references of a bit map that do not name writable registers. -/
def warnings (map : RegisterMap) (bitMap : BitMap) : List LayoutWarning :=
  bitMap.toList.flatMap fun entry ↦ wordWarnings map bitMap entry.1 entry.2

def sourceBit (policy : MissingPolicy) (file : RegisterFile) (address : Address) :
    BitSource → Except LayoutError Bool
  | .constant value => .ok value
  | .ignored => .ok false
  | .register place =>
    if policy = .reject ∧ !file.contains place.register then
      .error (.missingRegister address place.register)
    else
      match (file.get place.register).bit file.width place.bit.toNat with
      | .error cause => .error (.bit cause)
      | .ok value => .ok value

def encodeWord (policy : MissingPolicy) (file : RegisterFile) (address : Address)
    (sources : List BitSource) : Except LayoutError Word := do
  return Word.ofBits (← sources.mapM (sourceBit policy file address))

def encodeEntry (policy : MissingPolicy) (file : RegisterFile) (image : Image)
    (entry : Address × List BitSource) : Except LayoutError Image := do
  let word ← encodeWord policy file entry.1 entry.2
  match image.set entry.1 word with
  | .error cause => throw (.bit cause)
  | .ok image => return image

def encodeImage (policy : MissingPolicy) (bitMap : BitMap) (file : RegisterFile) :
    Except LayoutError Image :=
  bitMap.toList.foldlM (encodeEntry policy file) (Image.empty bitMap.width)

/-- An image, and the suspicious references met on the way. -/
structure Encoded where
  image : Image
  warnings : List LayoutWarning
deriving DecidableEq

def encode (policy : MissingPolicy) (map : RegisterMap) (bitMap : BitMap) (file : RegisterFile) :
    Except LayoutError Encoded := do
  return ⟨← encodeImage policy bitMap file, warnings map bitMap⟩

end Layout

end ChipConfig
