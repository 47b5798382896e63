import ChipConfig.Device
import ChipConfig.Image

/-!
# Streaming images

A chip shows its EEPROM through a few registers: a pointer and a data register for each direction,
and a lock.  The pointer moves on with every word, so an image goes through as one run of words from
address 0.  Nothing is written before the image is known to be complete and to fit.
-/

namespace ChipConfig

/-- The registers through which a chip shows its EEPROM. -/
structure EepromInterface where
  lockRegister : Address
  unlockWord : Word
  writePointer : Address
  writeData : Address
  readPointer : Address
  readData : Address
  wordCount : Nat
deriving DecidableEq, Repr

/-- The interface of the CDCE6214: the lock is 5 in the top four bits of register 15, and there are
64 words. -/
def EepromInterface.cdce6214 : EepromInterface where
  lockRegister := 0x0f
  unlockWord := 0x5000
  writePointer := 0x0d
  writeData := 0x0e
  readPointer := 0x0b
  readData := 0x0c
  wordCount := 64

inductive EepromError where
  | device (cause : DeviceError)
  | layout (cause : LayoutError)
  | bit (cause : BitError)
  | imageTooLarge (words capacity : Nat)
deriving DecidableEq, Repr

def EepromError.message : EepromError → String
  | device cause => cause.message
  | layout cause => cause.message
  | bit cause => cause.message
  | imageTooLarge words capacity =>
    s!"image has {words} words, the EEPROM holds {capacity}"

namespace EepromInterface

variable {σ : Type}

def writeWord (device : Device σ) (address : Address) (word : Word) :
    Session σ EepromError Unit := do
  let _ ← (device.write address word).mapError .device

def readWord (device : Device σ) (address : Address) : Session σ EepromError Word :=
  (device.read address).mapError .device

def unlock (interface : EepromInterface) (device : Device σ) : Session σ EepromError Unit :=
  writeWord device interface.lockRegister interface.unlockWord

/-- The words of an image, if it has no gap and fits the EEPROM. -/
def wordsOf (interface : EepromInterface) (image : Image) : Except EepromError (List Word) :=
  match image.toWords with
  | .error cause => .error (.layout cause)
  | .ok words =>
    if interface.wordCount < words.length then
      .error (.imageTooLarge words.length interface.wordCount)
    else
      .ok words

/-- Writes words one after the other to an address. -/
def stream (device : Device σ) (address : Address) : List Word → Session σ EepromError Unit
  | [] => pure ()
  | word :: rest => do
    writeWord device address word
    stream device address rest

def writeImage (interface : EepromInterface) (device : Device σ) (image : Image) :
    Session σ EepromError Unit := do
  let words ← Session.ofExcept (interface.wordsOf image)
  interface.unlock device
  writeWord device interface.writePointer 0
  stream device interface.writeData words

/-- Reads that many words into an image, from an address on. -/
def collect (device : Device σ) (source : Address) (image : Image) (address : Nat) :
    Nat → Session σ EepromError Image
  | 0 => pure image
  | count + 1 => do
    let word ← readWord device source
    match image.set (UInt32.ofNat address) word with
    | .error cause => throw (.bit cause)
    | .ok image => collect device source image (address + 1) count

def readImage (interface : EepromInterface) (device : Device σ) (width : Width) :
    Session σ EepromError Image := do
  writeWord device interface.readPointer 0
  collect device interface.readData (.empty width) 0 interface.wordCount

/-- The words of an image at the addresses that another image has. -/
def covered (image : Image) (written : Image) : Image :=
  ⟨written.width,
    ⟨image.words.toList.filter fun entry ↦ written.words.contains entry.1,
      image.words.sorted.filter _⟩⟩

/-- Reads the EEPROM and compares it with the image that was written, at the addresses of that
image. -/
def verifyImage (interface : EepromInterface) (device : Device σ) (written : Image) :
    Session σ EepromError (List WordDiff) := do
  let image ← interface.readImage device written.width
  return written.diff (covered image written)

end EepromInterface

end ChipConfig
