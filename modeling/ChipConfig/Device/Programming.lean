import ChipConfig.Device
import ChipConfig.RegisterMap

/-!
# Programming registers

A register file is brought into a device one register after the other in ascending order, as far as
the register map allows writing, and read back from it as far as the map allows reading.  The first
access that fails ends it.
-/

namespace ChipConfig.Device

variable {σ : Type}

/-- Writes words in order and ends at the first write that fails. -/
def writeAll (device : Device σ) : List (Address × Word) → Session σ DeviceError Unit
  | [] => pure ()
  | (address, word) :: rest => do
    let _ ← device.write address word
    writeAll device rest

/-- Writes the writable registers of a file and gives the registers that were left out. -/
def program (device : Device σ) (map : RegisterMap) (file : RegisterFile) :
    Session σ DeviceError (List Address) := do
  device.writeAll (map.writablePart file).toList
  return map.rejected file

def readAll (device : Device σ) (file : RegisterFile) :
    List Address → Session σ DeviceError RegisterFile
  | [] => pure file
  | register :: rest => do
    let word ← device.read register
    match file.set register word with
    | .error cause => throw (.bit cause)
    | .ok file => readAll device file rest

def readableRegisters (map : RegisterMap) : List Address :=
  (map.registers.toList.filter fun entry ↦ entry.2.mode.isReadable).map Prod.fst

def readBack (device : Device σ) (map : RegisterMap) : Session σ DeviceError RegisterFile :=
  device.readAll (.empty map.width) (readableRegisters map)

end ChipConfig.Device
