import ChipConfig.AccessMode
import ChipConfig.Interpretation
import ChipConfig.RegisterFile

/-!
# Fields

A field is a named value made of one or more fragments, each a bit range of a register.  Reading
puts the fragments together and interprets the result; writing takes the raw bits of a value apart
and puts each chunk into its register, keeping all other bits.
-/

namespace ChipConfig

/-- A bit range of a register that gives the bits of a field from `offset` on. -/
structure Fragment where
  register : Address
  bits : BitRange
  offset : Nat
deriving DecidableEq, Repr

namespace Fragment

def length (fragment : Fragment) : Nat :=
  fragment.bits.length

/-- The bits of the field that the fragment gives. -/
def fieldMask (fragment : Fragment) : Word :=
  Word.lowMask fragment.length <<< fragment.offset

def totalLength : List Fragment → Nat
  | [] => 0
  | fragment :: rest => fragment.length + totalLength rest

end Fragment

inductive FieldLayout where
  | single (fragment : Fragment)
  /-- Fragments in ascending order of their offsets. -/
  | concatenated (fragments : List Fragment)
deriving DecidableEq, Repr

def FieldLayout.fragments : FieldLayout → List Fragment
  | single fragment => [fragment]
  | concatenated fragments => fragments

inductive FieldError where
  | unknownField (name : String)
  | notWritable (field : String) (mode : AccessMode)
  /-- A fragment does not lie inside its register, or a raw value has too many bits. -/
  | bit (cause : BitError)
  | unreadable (field : String) (cause : InterpretationError)
  | invalidValue (field : String) (cause : InterpretationError)
deriving DecidableEq, Repr

namespace FieldError

def message : FieldError → String
  | unknownField name => s!"unknown field {name}"
  | notWritable field mode => s!"field {field} is {mode.text} and cannot be written"
  | bit cause => cause.message
  | unreadable field cause => s!"field {field}: translation failed: {cause.message}"
  | invalidValue field cause => s!"field {field}: {cause.message}"

def chain (error : FieldError) : List String :=
  match error with
  | unreadable _ cause => [error.message, cause.message]
  | invalidValue _ cause => [error.message, cause.message]
  | _ => [error.message]

end FieldError

/-- A named value inside registers. -/
structure Field where
  name : String
  description : Option String
  /-- What all registers of the field allow. -/
  mode : AccessMode
  layout : FieldLayout
  interpretation : Interpretation
deriving DecidableEq

namespace Field

def fragments (field : Field) : List Fragment :=
  field.layout.fragments

def totalBits (field : Field) : Nat :=
  Fragment.totalLength field.fragments

def registers (field : Field) : List Address :=
  field.fragments.map Fragment.register

/-- Adds the bits of a fragment to the raw value put together so far. -/
def gather (file : RegisterFile) (raw : Word) (fragment : Fragment) : Except BitError Word := do
  let part ← fragment.bits.extract file.width (file.get fragment.register)
  return raw ||| (part <<< fragment.offset)

def readRaw (field : Field) (file : RegisterFile) : Except BitError Word :=
  field.fragments.foldlM (gather file) 0

def read (field : Field) (file : RegisterFile) : Except FieldError Value :=
  match field.readRaw file with
  | .error cause => .error (.bit cause)
  | .ok raw =>
    match field.interpretation.toValue raw field.totalBits with
    | .error cause => .error (.unreadable field.name cause)
    | .ok value => .ok value

/-- The bits of a raw value that a fragment gives, moved down to bit 0. -/
def chunk (raw : Word) (fragment : Fragment) : Word :=
  (raw >>> fragment.offset) &&& Word.lowMask fragment.length

/-- The word a register is going to have: the last one waiting for it, else its present one. -/
def pendingWord (file : RegisterFile) (pending : List (Address × Word)) (register : Address) :
    Word :=
  match pending.find? fun entry ↦ entry.1 = register with
  | some entry => entry.2
  | none => file.get register

/-- Puts the chunk of a fragment into its register and adds the new word to those that wait to be
written, the last one first. -/
def stage (file : RegisterFile) (raw : Word) (pending : List (Address × Word))
    (fragment : Fragment) : Except BitError (List (Address × Word)) := do
  let word ← fragment.bits.insert file.width (pendingWord file pending fragment.register)
    (chunk raw fragment)
  return (fragment.register, word) :: pending

/-- Puts the chunks of a raw value into the registers of the fragments.  The file changes only when
every chunk has found its place. -/
def scatter (field : Field) (file : RegisterFile) (raw : Word) : Except BitError RegisterFile := do
  let pending ← field.fragments.foldlM (stage file raw) []
  pending.reverse.foldlM (fun file entry ↦ file.set entry.1 entry.2) file

def writeRaw (field : Field) (file : RegisterFile) (raw : Word) :
    Except FieldError RegisterFile :=
  if !field.mode.isWritable then
    .error (.notWritable field.name field.mode)
  else if raw &&& ~~~Word.lowMask field.totalBits ≠ 0 then
    .error (.bit (.valueTooWide raw field.totalBits))
  else
    match field.scatter file raw with
    | .error cause => .error (.bit cause)
    | .ok file => .ok file

def write (field : Field) (file : RegisterFile) (value : Value) :
    Except FieldError RegisterFile :=
  match field.interpretation.toRaw value field.totalBits with
  | .error cause => .error (.invalidValue field.name cause)
  | .ok raw => field.writeRaw file raw

end Field

end ChipConfig
