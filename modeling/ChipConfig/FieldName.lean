import ChipConfig.BitRange
import ChipConfig.Text.Blank

/-!
# Field names

A description names each piece of a field and may annotate the name with bit ranges in brackets.
One bracket, as in `EE_LOCK[15:12]`, repeats the bits inside the register.  Two brackets, as in
`PLL_N[17:16][1:0]`, say that the piece gives bits 17 and 16 of the whole field and lies in bits 1
and 0 of its register.  A bracket with one number names one bit.
-/

namespace ChipConfig

/-- The parts of an annotated field name. -/
structure FieldName where
  base : String
  /-- The bits of the whole field that the piece gives. -/
  fieldBits : Option BitRange
  /-- The bits inside the register. -/
  registerBits : Option BitRange
deriving DecidableEq, Repr

namespace FieldName

def bitNumber? (cs : List Char) : Option Nat :=
  Numeral.bounded? 10 UInt32.size (Text.trim cs)

/-- The range between two brackets, `high:low` or one bit. -/
def range? (cs : List Char) : Option BitRange := do
  let range ←
    match Text.splitFirst? ':' cs with
    | some (high, low) => do
      let high ← bitNumber? high
      let low ← bitNumber? low
      some (BitRange.mk low high)
    | none => (bitNumber? cs).map BitRange.single
  if range.low ≤ range.high then some range else none

/-- Takes a bracket off the end of a name, together with the blanks before it.  A name without a
closing bracket at its end is left as it is; a bracket that holds no range is refused. -/
def stripRange? (cs : List Char) : Option (List Char × Option BitRange) :=
  match Text.stripLast? ']' cs with
  | none => some (cs, none)
  | some inner => do
    let (before, content) ← Text.splitLast? '[' inner
    let range ← range? content
    return (Text.trimEnd before, some range)

def ofChars? (cs : List Char) : Option FieldName := do
  let (rest, registerBits) ← stripRange? (Text.trim cs)
  let (base, fieldBits) ←
    match registerBits with
    | some _ => stripRange? rest
    | none => some (rest, none)
  if base.isEmpty || base.contains '[' || base.contains ']' then
    none
  else
    return ⟨String.ofList base, fieldBits, registerBits⟩

def ofText? (text : String) : Option FieldName :=
  ofChars? text.toList

/-- The annotation `[high:low]` of a range. -/
def rangeChars (range : BitRange) : List Char :=
  '[' :: Numeral.decimalChars range.high ++ ':' :: Numeral.decimalChars range.low ++ [']']

def text (name : FieldName) : String :=
  String.ofList (name.base.toList ++ (name.fieldBits.map rangeChars).getD [] ++
    (name.registerBits.map rangeChars).getD [])

end FieldName

end ChipConfig
