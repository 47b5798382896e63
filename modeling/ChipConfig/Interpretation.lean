import ChipConfig.Decimal.Notation
import ChipConfig.SortedMap
import ChipConfig.Text.Quoted
import ChipConfig.Word

/-!
# Interpretations of field values

The raw bits of a field stand for a value of its domain: an unsigned or a signed number, a number on
a linear scale, or a label.  An `Interpretation` gives the value of raw bits and the raw bits of a
value.  It is plain data, so it can be checked before it is used.
-/

namespace ChipConfig

inductive Value where
  | unsigned (word : Word)
  | signed (number : Int)
  | float (number : Double)
  | label (text : String)
deriving DecidableEq, Repr

/-- The value as it is printed: unsigned numbers in hexadecimal, all others plainly. -/
def Value.text : Value → String
  | unsigned word => Numeral.hex word.toNat
  | signed number => toString number
  | float number => Decimal.plainText number
  | label text => text

inductive Interpretation where
  /-- The raw bits as an unsigned number. -/
  | identity
  /-- Two's complement over the width of the field. -/
  | signed
  /-- The raw number times `scale` plus `offset`. -/
  | linear (scale offset : Double)
  | enumerated (labels : SortedMap Word String)
deriving DecidableEq

instance : Inhabited Interpretation := ⟨.identity⟩

inductive InterpretationError where
  | unknownCode (raw : Word)
  | unknownLabel (label : String)
  /-- The value is of a kind that the interpretation does not give. -/
  | typeMismatch
  | outOfRange (bits : Nat)
  /-- The scale is zero, or scale or offset is not finite. -/
  | invalidScale
  | invalidCode (text : String)
deriving DecidableEq, Repr

def InterpretationError.message : InterpretationError → String
  | unknownCode raw => s!"no label for raw value {Numeral.hex raw.toNat}"
  | unknownLabel label => s!"unknown label {Text.quoted label}"
  | typeMismatch => "value kind does not match the translation"
  | outOfRange bits => s!"value is out of range for a {bits}-bit field"
  | invalidScale => "scale/offset must be finite and the scale non-zero"
  | invalidCode text => s!"invalid raw code {Text.quoted text}"

namespace Interpretation

def validate : Interpretation → Except InterpretationError Unit
  | linear scale offset =>
    if scale.isFinite && offset.isFinite && !scale.isZero then .ok () else .error .invalidScale
  | _ => .ok ()

/-- Whether two interpretations are the same.  Scales and offsets count as numbers, so a zero agrees
with the zero of the other sign. -/
def agrees : Interpretation → Interpretation → Bool
  | linear scale offset, linear scale' offset' => scale.agrees scale' && offset.agrees offset'
  | interpretation, interpretation' => interpretation = interpretation'

def linearValue (scale offset : Double) (raw : Word) : Double :=
  .ofFloat (raw.toNat.toUInt64.toFloat * scale.toFloat + offset.toFloat)

def toValue (interpretation : Interpretation) (raw : Word) (bits : Nat) :
    Except InterpretationError Value := do
  interpretation.validate
  match interpretation with
  | identity => return .unsigned raw
  | signed => return .signed (raw.signExtend bits)
  | linear scale offset => return .float (linearValue scale offset raw)
  | enumerated labels =>
    match labels.get? raw with
    | some label => return .label label
    | none => throw (.unknownCode raw)

/-- The least code with a label. -/
def codeOf? (labels : SortedMap Word String) (label : String) : Option Word :=
  (labels.toList.find? fun entry ↦ entry.2 = label).map Prod.fst

/-- The bound that codes on a linear scale stay below: two to the power of the width, which counts
as a signed number of 32 bits.  Where that is negative, the bound is the inverse of the opposite
power, and zero once that power is infinite. -/
def linearBound (bits : Nat) : Float :=
  let power := (BitVec.ofNat 32 bits).toInt
  if 0 ≤ power then Float.scaleB 1 power else 1 / Float.scaleB 1 (-power)

/-- The code of a point on a linear scale: the nearest whole number, halves away from zero. -/
def linearCode (scale offset number : Double) (bits : Nat) : Except InterpretationError Word :=
  let code := ((number.toFloat - offset.toFloat) / scale.toFloat).round
  if !code.isFinite || code < 0 || code ≥ linearBound bits then
    .error (.outOfRange bits)
  else
    .ok (BitVec.ofNat 64 code.toUInt64.toNat)

/-- The least number that is too large for two's complement in that many bits, 64 at most. -/
def signedBound (bits : Nat) : Nat :=
  1 <<< (min bits 64 - 1)

/-- The code of a value, before it is held against the width of the field.  An unsigned number is a
code in every interpretation. -/
def code (interpretation : Interpretation) (value : Value) (bits : Nat) :
    Except InterpretationError Word :=
  match interpretation, value with
  | _, .unsigned word => .ok word
  | identity, .signed number =>
    if 0 ≤ number ∧ number < UInt64.size then .ok (BitVec.ofInt 64 number)
    else .error (.outOfRange bits)
  | signed, .signed number =>
    if number < -(signedBound bits : Int) ∨ (signedBound bits : Int) ≤ number then
      .error (.outOfRange bits)
    else
      .ok (BitVec.ofInt 64 number &&& Word.lowMask bits)
  | linear scale offset, .float number => linearCode scale offset number bits
  | enumerated labels, .label label =>
    match codeOf? labels label with
    | some code => .ok code
    | none => .error (.unknownLabel label)
  | _, _ => .error .typeMismatch

def toRaw (interpretation : Interpretation) (value : Value) (bits : Nat) :
    Except InterpretationError Word := do
  interpretation.validate
  let raw ← interpretation.code value bits
  if Word.lowMask bits < raw then
    throw (.outOfRange bits)
  return raw

end Interpretation

/-- Named interpretations that a description may refer to. -/
abbrev InterpretationRegistry := SortedMap String Interpretation

end ChipConfig
