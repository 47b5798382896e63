import ChipConfig.Width

/-!
# Devices

A device is anything whose registers can be written and read one word at a time.  It is a state
machine: every access may change its state, may answer any word and may fail, and the state it is
left in counts in either case.  `Device.logged` keeps the accesses that were tried.
-/

namespace ChipConfig

inductive DeviceError where
  | write (address : Address) (word : Word) (reason : String)
  | read (address : Address) (reason : String)
  /-- The word does not fit the registers of the device. -/
  | bit (cause : BitError)
deriving DecidableEq, Repr

def DeviceError.message : DeviceError → String
  | write address word reason =>
    s!"write of {Numeral.hex word.toNat} to register {Numeral.hex address.toNat} failed: {reason}"
  | read address reason => s!"read of register {Numeral.hex address.toNat} failed: {reason}"
  | bit cause => cause.message

/-- Something that accesses a device with states `σ` and may fail. -/
abbrev Session (σ ε α : Type) := ExceptT ε (StateM σ) α

namespace Session

variable {σ ε ε' α : Type}

def runFrom (session : Session σ ε α) (state : σ) : Except ε α × σ :=
  (ExceptT.run session).run state

def mapError (f : ε → ε') (session : Session σ ε α) : Session σ ε' α :=
  ExceptT.adapt f session

/-- A result that needs no access. -/
def ofExcept (result : Except ε α) : Session σ ε α :=
  ExceptT.mk (pure result)

end Session

structure Device (σ : Type) where
  /-- Writes a word and gives the answer of the device. -/
  write : Address → Word → Session σ DeviceError Word
  read : Address → Session σ DeviceError Word

inductive Access where
  | write (address : Address) (word : Word)
  | read (address : Address)
deriving DecidableEq, Repr

/-- The address and word of a write. -/
def Access.written? : Access → Option (Address × Word)
  | write address word => some (address, word)
  | read _ => none

namespace Device

variable {σ : Type}

/-- An access to a device on a state that also lists the accesses tried so far, the last one at
the end. -/
def log {α : Type} (access : Access) (session : Session σ DeviceError α) :
    Session (σ × List Access) DeviceError α :=
  ExceptT.mk fun (state, accesses) ↦
    let (result, state) := session.runFrom state
    (result, (state, accesses ++ [access]))

/-- The device that lists every access that is tried, failing ones included. -/
def logged (device : Device σ) : Device (σ × List Access) where
  write address word := log (.write address word) (device.write address word)
  read address := log (.read address) (device.read address)

/-- The device that refuses to write some addresses and to read others, before anything happens. -/
def failing (device : Device σ) (reason : String) (writes reads : List Address) : Device σ where
  write address word :=
    if writes.contains address then
      throw (.write address word reason)
    else
      device.write address word
  read address :=
    if reads.contains address then
      throw (.read address reason)
    else
      device.read address

end Device

end ChipConfig
