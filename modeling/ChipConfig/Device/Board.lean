import ChipConfig.Device.Memory

/-!
# Boards

A board is registers in memory, with or without an EEPROM behind some of them.  The EEPROM has a
pointer for each direction.  Writing the pointer registers sets the pointers; writing the data
register stores a word if the lock register shows the unlock pattern, and reading the other data
register answers a word, each moving its pointer on by one.
-/

namespace ChipConfig

structure Eeprom where
  cells : List Word
  writePointer : Nat
  readPointer : Nat
deriving DecidableEq

namespace Eeprom

def ofCells (cells : List Word) : Eeprom :=
  ⟨cells, 0, 0⟩

/-- Stores a word at the write pointer, which moves on.  Outside the cells nothing is stored. -/
def store (eeprom : Eeprom) (word : Word) : Eeprom :=
  { eeprom with
    cells := eeprom.cells.set eeprom.writePointer word
    writePointer := eeprom.writePointer + 1 }

/-- The word at the read pointer, zero outside the cells. -/
def current (eeprom : Eeprom) : Word :=
  eeprom.cells.getD eeprom.readPointer 0

def advance (eeprom : Eeprom) : Eeprom :=
  { eeprom with readPointer := eeprom.readPointer + 1 }

end Eeprom

/-- Registers in memory, with or without an EEPROM behind them. -/
structure Board where
  memory : Memory
  eeprom : Option Eeprom
deriving DecidableEq

namespace Board

def writePointer : Address := 0x0d

def writeData : Address := 0x0e

def readPointer : Address := 0x0b

def readData : Address := 0x0c

/-- The register with the lock in its top four bits. -/
def lock : Address := 0x0f

def isUnlocked (memory : Memory) : Bool :=
  memory.peek lock >>> 12 = 5

def onWrite (memory : Memory) (eeprom : Eeprom) (address : Address) (word : Word) : Eeprom :=
  if address = writePointer then
    { eeprom with writePointer := word.toNat }
  else if address = readPointer then
    { eeprom with readPointer := word.toNat }
  else if address = writeData ∧ isUnlocked memory then
    eeprom.store word
  else
    eeprom

def withMemory {α : Type} (session : Session Memory DeviceError α) :
    Session Board DeviceError α :=
  ExceptT.mk fun board ↦
    let (result, memory) := session.runFrom board.memory
    (result, { board with memory })

/-- Writes a word: the EEPROM reacts first, then the register takes it. -/
def write (address : Address) (word : Word) : Session Board DeviceError Word := do
  modify fun board ↦
    { board with eeprom := board.eeprom.map (onWrite board.memory · address word) }
  withMemory (Memory.write address word)

/-- Reads a word, from the EEPROM if it is asked for its data. -/
def read (address : Address) : Session Board DeviceError Word := do
  let board ← get
  match board.eeprom with
  | some eeprom =>
    if address = readData then
      set { board with eeprom := some eeprom.advance }
      return eeprom.current
    else
      withMemory (Memory.read address)
  | none => withMemory (Memory.read address)

def device : Device Board :=
  ⟨write, read⟩

end Board

end ChipConfig
