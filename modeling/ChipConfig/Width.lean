import ChipConfig.SortedMap
import ChipConfig.Text.Numeral
import ChipConfig.Word

/-!
# Word widths

A `Width` is a number of bits between 1 and 64.  It decides which values fit a word and which bit
positions lie inside it, and it is the source of every bit error of the library.  Words of one width
are kept at addresses, and none is kept that does not fit.
-/

namespace ChipConfig

/-- What can be wrong with a bit position, a bit range or a value put into one. -/
inductive BitError where
  | invalidWidth (bits : Nat)
  | indexOutOfRange (bit width : Nat)
  | invertedRange (low high : Nat)
  /-- The value has a set bit above the bits it is given. -/
  | valueTooWide (value : Word) (bits : Nat)
deriving DecidableEq, Repr

def BitError.message : BitError → String
  | invalidWidth bits => s!"word width {bits} is outside 1..=64"
  | indexOutOfRange bit width => s!"bit {bit} is outside a {width}-bit word"
  | invertedRange low high => s!"bit range [{high}:{low}] is inverted"
  | valueTooWide value bits =>
    s!"value {Numeral.hex value.toNat} does not fit in {bits} bits"

structure Width where
  /-- How many low bits of the word count. -/
  bits : Nat
  one_le : 1 ≤ bits
  le_max : bits ≤ 64
deriving DecidableEq, Repr

namespace Width

/-- Sixteen bits, the register and image width of most clock generators. -/
def w16 : Width := ⟨16, by decide, by decide⟩

instance : Inhabited Width := ⟨w16⟩

def ofBits (bits : Nat) : Except BitError Width :=
  if h : 1 ≤ bits ∧ bits ≤ 64 then .ok ⟨bits, h.1, h.2⟩ else .error (.invalidWidth bits)

def mask (width : Width) : Word :=
  Word.lowMask width.bits

/-- Accepts the values that have no bit above the width. -/
def check (width : Width) (value : Word) : Except BitError Word :=
  if value &&& ~~~width.mask = 0 then .ok value else .error (.valueTooWide value width.bits)

/-- Puts a word that fits at an address, in exchange for the one there. -/
def put (width : Width) (words : SortedMap Address Word) (address : Address) (word : Word) :
    Except BitError (SortedMap Address Word) := do
  let word ← width.check word
  return words.insert address word

/-- Later words replace earlier ones. -/
def putAll (width : Width) (entries : List (Address × Word)) :
    Except BitError (SortedMap Address Word) :=
  entries.foldlM (fun words entry ↦ width.put words entry.1 entry.2) ∅

def checkIndex (width : Width) (bit : Nat) : Except BitError Nat :=
  if bit < width.bits then .ok bit else .error (.indexOutOfRange bit width.bits)

def hexDigits (width : Width) : Nat :=
  (width.bits + 3) / 4

/-- The width in words, such as `16-bit`. -/
def text (width : Width) : String :=
  s!"{width.bits}-bit"

end Width

end ChipConfig
