import ChipConfig.Field
import ChipConfig.FieldName

/-!
# Register descriptions

The description of a chip lists its registers, and for each of them an address, an access mode and
the pieces of fields inside it.  All of it is text and numbers as somebody wrote them down;
`RegisterMap.compile` finds out whether it makes sense.
-/

namespace ChipConfig

inductive InterpretationRef where
  | inline (interpretation : Interpretation)
  | named (name : String)
deriving DecidableEq

/-- A piece of a field in a register. -/
structure FieldEntry where
  /-- The annotated name of the field. -/
  name : String
  /-- The bits inside the register. -/
  bits : BitRange
  description : Option String
  interpretation : Option InterpretationRef
deriving DecidableEq

structure RegisterEntry where
  /-- The address in hexadecimal, with or without a `0x` mark. -/
  address : String
  mode : Option String
  fields : List FieldEntry
deriving DecidableEq

/-- A number in a document: written as a number, or as text. -/
inductive Quantity where
  | number (n : Word)
  | text (text : String)
deriving DecidableEq, Repr

/-- The number as messages show it, with a word for the way it was written. -/
def Quantity.shown : Quantity → String
  | number n => s!"Number({n.toNat})"
  | text t => s!"Text({Text.quoted t})"

inductive DescriptionError where
  | invalidAddress (text : String)
  | duplicateRegister (address : Address)
  | missingMode (address : Address)
  | unknownMode (address : Address) (mode : String)
  /-- The name is empty, or a bracket in it makes no sense. -/
  | malformedFieldName (name : String)
  /-- A bracket has not as many bits as the piece. -/
  | widthMismatch (field : String) (actual declared : Nat)
  /-- The piece gives bits of the field that another piece gives already. -/
  | overlappingFragment (field : String) (bits : BitRange)
  /-- A field without annotations for its pieces occurs again. -/
  | duplicateField (field : String)
  | fieldGap (field : String)
  | fieldTooWide (field : String) (bits : Nat)
  | conflictingInterpretation (field : String)
  | unknownInterpretation (field name : String)
  | interpretation (field : String) (cause : InterpretationError)
  | bit (address : Address) (cause : BitError)
  | unreadable
  | invalidBitNumber (field : String) (quantity : Quantity)
deriving DecidableEq, Repr

namespace DescriptionError

def message : DescriptionError → String
  | invalidAddress text => s!"invalid register address {Text.quoted text}"
  | duplicateRegister address => s!"register {Numeral.hex address.toNat} is declared twice"
  | missingMode address => s!"register {Numeral.hex address.toNat} has no mode"
  | unknownMode address mode =>
    s!"register {Numeral.hex address.toNat} has unrecognised mode {Text.quoted mode}"
  | malformedFieldName name => s!"malformed field name {Text.quoted name}"
  | widthMismatch field actual declared =>
    s!"field {field}: bracket range is {declared} bits but the fragment is {actual} bits"
  | overlappingFragment field bits =>
    s!"field {field}: bits [{bits.high}:{bits.low}] overlap an earlier fragment"
  | duplicateField field => s!"field {field} is declared more than once"
  | fieldGap field => s!"field {field} has gaps between its fragments"
  | fieldTooWide field bits => s!"field {field} is {bits} bits wide, more than 64"
  | conflictingInterpretation field =>
    s!"field {field} declares different translations on its fragments"
  | unknownInterpretation field name =>
    s!"field {field} references unknown translation {Text.quoted name}"
  | interpretation field cause => s!"field {field}: translation failed: {cause.message}"
  | bit address cause => s!"register {Numeral.hex address.toNat}: {cause.message}"
  | unreadable => "descriptor JSON"
  | invalidBitNumber field quantity =>
    s!"descriptor JSON: field {field}: invalid bit number {quantity.shown}"

/-- The error and what caused it, the outermost first. -/
def chain (error : DescriptionError) : List String :=
  match error with
  | interpretation _ cause => [error.message, cause.message]
  | bit _ cause => [error.message, cause.message]
  | _ => [error.message]

end DescriptionError

end ChipConfig
