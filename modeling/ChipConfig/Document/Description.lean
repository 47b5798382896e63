import ChipConfig.Document.Interpretation
import ChipConfig.RegisterMap

/-!
# Description documents

A description comes as a document of the shape that exports of register tools have.  The document is
read into definitions that say what is written there, definitions are written back as the shortest
document, and `toEntries` turns them into the entries of a description.
-/

namespace ChipConfig

namespace Quantity

/-- The number that a value is, written as an unsigned integer or as text. -/
def ofJson? : Json → Option Quantity
  | .number n => (n.natural? UInt64.size).map fun n ↦ number (BitVec.ofNat 64 n)
  | .text written => written.text?.map text
  | _ => none

def toJson : Quantity → Json
  | number n => Document.ofNat n.toNat
  | text t => Document.ofText t

/-- The bit number that is meant: text is decimal, between blanks. -/
def bitNumber? : Quantity → Option Nat
  | number n => if n.toNat < UInt32.size then some n.toNat else none
  | text t => FieldName.bitNumber? t.toList

/-- The text of an address: a number is written in hexadecimal. -/
def addressText : Quantity → String
  | number n => Numeral.hex n.toNat
  | text t => t

end Quantity

structure FieldDoc where
  name : String
  startBit : Quantity
  endBit : Quantity
  description : Option String
  interpretation : Option InterpretationRefDoc
deriving DecidableEq

structure RegisterDoc where
  address : Quantity
  mode : Option String
  fields : List FieldDoc
deriving DecidableEq

structure DescriptionDoc where
  registers : List RegisterDoc
deriving DecidableEq

namespace FieldDoc

/-- How deep the interpretation of a field may nest, inside of the five lists and objects around
it. -/
def interpretationDepth : Nat := Document.maxDepth - 5

/-- The interpretation of a member that may be missing or null. -/
def interpretation? : Option Json → Option (Option InterpretationRefDoc)
  | none => some none
  | some .null => some none
  | some json => (InterpretationRefDoc.ofJson? interpretationDepth json).map some

def ofJson? (json : Json) : Option FieldDoc := do
  let [some name, some startBit, some endBit, description, interpretation] ←
    Document.record?
      ["Field_Name", "Start_Bit", "End_Bit", "Field_Description", "Translation"] json | none
  return {
    name := ← Document.text? name
    startBit := ← Quantity.ofJson? startBit
    endBit := ← Quantity.ofJson? endBit
    description := ← Document.optionalText? description
    interpretation := ← interpretation? interpretation }

def toJson (field : FieldDoc) : Json :=
  Document.ofRecord
    [("Field_Name", Document.ofText field.name),
      ("Start_Bit", field.startBit.toJson),
      ("End_Bit", field.endBit.toJson),
      ("Field_Description", Document.ofOptionalText field.description),
      ("Translation", (field.interpretation.map InterpretationRefDoc.toJson).getD .null)]

def bitOf (field : FieldDoc) (quantity : Quantity) : Except DescriptionError Nat :=
  match quantity.bitNumber? with
  | some bit => .ok bit
  | none => .error (.invalidBitNumber field.name quantity)

def refOf (field : FieldDoc) :
    Option InterpretationRefDoc → Except DescriptionError (Option InterpretationRef)
  | none => .ok none
  | some (.named name) => .ok (some (.named name))
  | some (.inline doc) =>
    match doc.toInterpretation with
    | .ok interpretation => .ok (some (.inline interpretation))
    | .error cause => .error (.interpretation field.name cause)

def toEntry (field : FieldDoc) : Except DescriptionError FieldEntry := do
  let low ← field.bitOf field.startBit
  let high ← field.bitOf field.endBit
  let interpretation ← field.refOf field.interpretation
  return ⟨field.name, ⟨low, high⟩, field.description, interpretation⟩

end FieldDoc

namespace RegisterDoc

/-- The fields of a member that may be missing. -/
def fields? : Option Json → Option (List FieldDoc)
  | none => some []
  | some json => do (← Document.items? json).mapM FieldDoc.ofJson?

def ofJson? (json : Json) : Option RegisterDoc := do
  let [some address, mode, fields] ← Document.record? ["Address", "Mode", "Fields"] json | none
  return {
    address := ← Quantity.ofJson? address
    mode := ← Document.optionalText? mode
    fields := ← fields? fields }

def toJson (register : RegisterDoc) : Json :=
  Document.ofRecord
    [("Address", register.address.toJson),
      ("Mode", Document.ofOptionalText register.mode),
      ("Fields", .list (register.fields.map FieldDoc.toJson))]

def toEntry (register : RegisterDoc) : Except DescriptionError RegisterEntry := do
  let fields ← register.fields.mapM FieldDoc.toEntry
  return ⟨register.address.addressText, register.mode, fields⟩

end RegisterDoc

namespace DescriptionDoc

def ofJson? (json : Json) : Option DescriptionDoc := do
  let [some registers] ← Document.record? ["Registers"] json | none
  return ⟨← (← Document.items? registers).mapM RegisterDoc.ofJson?⟩

def parse? (text : String) : Option DescriptionDoc := do
  ofJson? (← Json.parse? text)

def toJson (doc : DescriptionDoc) : Json :=
  Document.ofRecord [("Registers", .list (doc.registers.map RegisterDoc.toJson))]

def render (doc : DescriptionDoc) : String :=
  doc.toJson.render

def toEntries (doc : DescriptionDoc) : Except DescriptionError (List RegisterEntry) :=
  doc.registers.mapM RegisterDoc.toEntry

end DescriptionDoc

def RegisterMap.parse (text : String) (width : Width) (registry : InterpretationRegistry) :
    Except DescriptionError RegisterMap :=
  match DescriptionDoc.parse? text with
  | none => .error .unreadable
  | some doc => do
    let entries ← doc.toEntries
    compile entries width registry

end ChipConfig
