import ChipConfig.Device
import ChipConfig.SortedMap

/-!
# Memory

The plainest device: registers that keep what is written to them, and read as zero before.  It
records every access that succeeds, which makes it fit for dry runs.
-/

namespace ChipConfig

/-- Registers in memory, and the accesses made to them, the first one in front. -/
structure Memory where
  width : Width
  words : SortedMap Address Word
  accesses : List Access
deriving DecidableEq

namespace Memory

def empty (width : Width) : Memory :=
  ⟨width, ∅, []⟩

/-- The word at an address.  Looking is no access. -/
def peek (memory : Memory) (address : Address) : Word :=
  (memory.words.get? address).getD 0

/-- Puts a word at an address without an access. -/
def poke (memory : Memory) (address : Address) (word : Word) : Except BitError Memory := do
  let words ← memory.width.put memory.words address word
  return { memory with words := words }

def writes (memory : Memory) : List (Address × Word) :=
  memory.accesses.filterMap Access.written?

def write (address : Address) (word : Word) : Session Memory DeviceError Word := do
  let memory ← get
  match memory.poke address word with
  | .error cause => throw (.bit cause)
  | .ok written =>
    set { written with accesses := memory.accesses ++ [Access.write address word] }
    return word

def read (address : Address) : Session Memory DeviceError Word := do
  let memory ← get
  set { memory with accesses := memory.accesses ++ [Access.read address] }
  return memory.peek address

def device : Device Memory :=
  ⟨write, read⟩

end Memory

end ChipConfig
