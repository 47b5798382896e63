import ChipConfig.FieldDraft

/-!
# Register maps

A register map is a description that makes sense: registers by address, with the slots inside them,
and fields by name.  `compile` goes through the entries in order and stops at the first one that is
wrong; when all have been seen, every field has to be complete.
-/

namespace ChipConfig

structure FieldSlot where
  field : String
  bits : BitRange
  description : Option String
deriving DecidableEq, Repr

/-- A register of a map with its slots in the order of the description. -/
structure RegisterInfo where
  address : Address
  mode : AccessMode
  slots : List FieldSlot
deriving DecidableEq, Repr

structure RegisterMap where
  width : Width
  registers : SortedMap Address RegisterInfo
  fields : SortedMap String Field
deriving DecidableEq

namespace RegisterMap

/-- The address in an entry: hexadecimal, between blanks, with or without a `0x` mark. -/
def addressOf (text : String) : Except DescriptionError Address :=
  let token := Text.trim text.toList
  match Numeral.bounded? 16 UInt32.size ((Numeral.stripHexMark? token).getD token) with
  | some address => .ok (UInt32.ofNat address)
  | none => .error (.invalidAddress text)

def modeOf (address : Address) : Option String → Except DescriptionError AccessMode
  | none => .error (.missingMode address)
  | some text =>
    match AccessMode.ofText? text with
    | some mode => .ok mode
    | none => .error (.unknownMode address text)

/-- Accepts the pieces that lie inside their register and gives their length. -/
def lengthOf (width : Width) (address : Address) (bits : BitRange) :
    Except DescriptionError Nat :=
  match bits.check width with
  | .ok length => .ok length
  | .error cause => .error (.bit address cause)

def nameOf (text : String) : Except DescriptionError FieldName :=
  match FieldName.ofText? text with
  | some name => .ok name
  | none => .error (.malformedFieldName text)

/-- Accepts a bracket that has as many bits as the piece it annotates.  The number of bits that the
bracket declares is shown up to the largest number of 32 bits. -/
def checkBracket (field : String) (length : Nat) :
    Option BitRange → Except DescriptionError Unit
  | none => .ok ()
  | some range =>
    if range.length = length then .ok ()
    else .error (.widthMismatch field length (min range.length (UInt32.size - 1)))

def checkFieldBits (field : String) (range : BitRange) : Except DescriptionError Unit :=
  if range.high < 64 then .ok ()
  else .error (.fieldTooWide field (min (range.high + 1) (UInt32.size - 1)))

/-- The interpretation an entry gives, looked up if it is given by name. -/
def resolve (registry : InterpretationRegistry) (field : String) :
    Option InterpretationRef → Except DescriptionError (Option Interpretation)
  | none => .ok none
  | some ref => do
    let interpretation ←
      match ref with
      | .inline interpretation => .ok interpretation
      | .named name =>
        match registry.get? name with
        | some interpretation => .ok interpretation
        | none => .error (.unknownInterpretation field name)
    match interpretation.validate with
    | .ok () => .ok (some interpretation)
    | .error cause => .error (.interpretation field cause)

structure Draft where
  registers : SortedMap Address RegisterInfo
  fields : SortedMap String FieldDraft

def Draft.empty : Draft :=
  ⟨∅, ∅⟩

/-- Puts a piece whose name has been read into the fields seen so far. -/
def placePiece (mode : AccessMode) (register : Address) (entry : FieldEntry) (name : FieldName)
    (length : Nat) (interpretation : Option Interpretation)
    (fields : SortedMap String FieldDraft) :
    Except DescriptionError (SortedMap String FieldDraft) :=
  match name.fieldBits with
  | none =>
    if fields.contains name.base then
      .error (.duplicateField name.base)
    else
      .ok (fields.insert name.base (.plain mode register entry interpretation))
  | some range => do
    checkBracket name.base length (some range)
    checkFieldBits name.base range
    let draft := (fields.get? name.base).getD (.start mode entry)
    let draft ← draft.addPiece name.base mode register entry range interpretation
    return fields.insert name.base draft

def addPiece (width : Width) (registry : InterpretationRegistry) (mode : AccessMode)
    (register : Address) (seen : SortedMap String FieldDraft × List FieldSlot)
    (entry : FieldEntry) :
    Except DescriptionError (SortedMap String FieldDraft × List FieldSlot) := do
  let length ← lengthOf width register entry.bits
  let name ← nameOf entry.name
  checkBracket name.base length name.registerBits
  let interpretation ← resolve registry name.base entry.interpretation
  let fields ← placePiece mode register entry name length interpretation seen.1
  return (fields, seen.2 ++ [⟨name.base, entry.bits, entry.description⟩])

def Draft.add (width : Width) (registry : InterpretationRegistry) (draft : Draft)
    (entry : RegisterEntry) : Except DescriptionError Draft := do
  let address ← addressOf entry.address
  if draft.registers.contains address then
    throw (.duplicateRegister address)
  let mode ← modeOf address entry.mode
  let (fields, slots) ←
    entry.fields.foldlM (addPiece width registry mode address) (draft.fields, [])
  return ⟨draft.registers.insert address ⟨address, mode, slots⟩, fields⟩

def finishField (fields : SortedMap String Field) (entry : String × FieldDraft) :
    Except DescriptionError (SortedMap String Field) := do
  let field ← entry.2.finish entry.1
  return fields.insert entry.1 field

/-- The map of a description, unless an entry is wrong or a field incomplete. -/
def compile (entries : List RegisterEntry) (width : Width) (registry : InterpretationRegistry) :
    Except DescriptionError RegisterMap := do
  let draft ← entries.foldlM (Draft.add width registry) Draft.empty
  let fields ← draft.fields.toList.foldlM finishField ∅
  return ⟨width, draft.registers, fields⟩

def empty (width : Width) : RegisterMap :=
  ⟨width, ∅, ∅⟩

def mode? (map : RegisterMap) (register : Address) : Option AccessMode :=
  (map.registers.get? register).map RegisterInfo.mode

def isWritable (map : RegisterMap) (register : Address) : Bool :=
  (map.mode? register).any AccessMode.isWritable

def field (map : RegisterMap) (name : String) : Except FieldError Field :=
  match map.fields.get? name with
  | some field => .ok field
  | none => .error (.unknownField name)

def readField (map : RegisterMap) (file : RegisterFile) (name : String) :
    Except FieldError Value := do
  (← map.field name).read file

def writeField (map : RegisterMap) (file : RegisterFile) (name : String) (value : Value) :
    Except FieldError RegisterFile := do
  (← map.field name).write file value

/-- The values of all fields in the order of their names. -/
def readFields (map : RegisterMap) (file : RegisterFile) :
    Except FieldError (List (String × Value)) :=
  map.fields.toList.mapM fun entry ↦ do
    return (entry.1, ← entry.2.read file)

/-- The registers of a file that must not be written, in ascending order: those that the map does
not have and those that it does not allow to write. -/
def rejected (map : RegisterMap) (file : RegisterFile) : List Address :=
  (file.words.keys).filter fun register ↦ !map.isWritable register

/-- A file without the registers that must not be written. -/
def writablePart (map : RegisterMap) (file : RegisterFile) : RegisterFile :=
  (map.rejected file).foldl RegisterFile.erase file

end RegisterMap

end ChipConfig
