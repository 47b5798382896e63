import ChipConfig.BitRange
import ChipConfig.Listing

/-!
# Register files

A register file holds the current words of numbered registers of one width.  A register without an
entry reads as zero, so two files that differ only in entries of zero show the same registers;
`agrees` compares them in that sense.
-/

namespace ChipConfig

structure RegisterFile where
  width : Width
  words : SortedMap Address Word
deriving DecidableEq

namespace RegisterFile

def empty (width : Width) : RegisterFile :=
  ⟨width, ∅⟩

/-- The word of a register, zero if it has no entry. -/
def get (file : RegisterFile) (register : Address) : Word :=
  (file.words.get? register).getD 0

def contains (file : RegisterFile) (register : Address) : Bool :=
  file.words.contains register

def set (file : RegisterFile) (register : Address) (value : Word) :
    Except BitError RegisterFile := do
  let words ← file.width.put file.words register value
  return { file with words := words }

def ofList (width : Width) (entries : List (Address × Word)) : Except BitError RegisterFile := do
  let words ← width.putAll entries
  return ⟨width, words⟩

/-- Makes sure that a register has an entry, zero if it had none. -/
def touch (file : RegisterFile) (register : Address) : RegisterFile :=
  { file with words := file.words.insert register (file.get register) }

def toggle (file : RegisterFile) (register : Address) (bit : Nat) :
    Except BitError RegisterFile := do
  let bit ← file.width.checkIndex bit
  let word := file.get register ^^^ BitVec.twoPow 64 bit
  return { file with words := file.words.insert register word }

def erase (file : RegisterFile) (register : Address) : RegisterFile :=
  { file with words := file.words.erase register }

def toList (file : RegisterFile) : List (Address × Word) :=
  file.words.toList

def nonzero (file : RegisterFile) : List (Address × Word) :=
  file.toList.filter fun entry ↦ entry.2 != 0

/-- Whether two files have one width and every register reads the same in both. -/
def agrees (a b : RegisterFile) : Bool :=
  a.width = b.width && a.nonzero = b.nonzero

structure ParseOptions where
  duplicates : DuplicatePolicy := .lastWins
  /-- The radix of words without a `0x` mark. -/
  radix : Radix := .hex
deriving DecidableEq, Repr

/-- Reads a configuration.  Registers are written `R12`, `12` or `0x0C`. -/
def parse (text : String) (width : Width) (options : ParseOptions) :
    Except ListingError RegisterFile := do
  let words ← Listing.load .decimal options.radix width options.duplicates text
  return ⟨width, words⟩

/-- Registers are printed as `R12`. -/
def registerChars (register : Address) : List Char :=
  'R' :: Numeral.decimalChars register.toNat

def text (file : RegisterFile) : String :=
  Listing.text registerChars file.width file.toList

end RegisterFile

end ChipConfig
