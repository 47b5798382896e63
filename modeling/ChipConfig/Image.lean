import ChipConfig.Layout.Error
import ChipConfig.Listing

/-!
# Images

An image is what a configuration memory holds: words of one width at addresses.  It can be written
as a listing and read back, flattened to the words from address 0 on when it has no gap, and
compared with another image word by word.
-/

namespace ChipConfig

structure Image where
  width : Width
  words : SortedMap Address Word
deriving DecidableEq

/-- An address at which two images differ, and the word each of them has there, if any. -/
structure WordDiff where
  address : Address
  expected : Option Word
  actual : Option Word
deriving DecidableEq, Repr

namespace Image

def empty (width : Width) : Image :=
  ⟨width, ∅⟩

def get? (image : Image) (address : Address) : Option Word :=
  image.words.get? address

def set (image : Image) (address : Address) (word : Word) : Except BitError Image := do
  let words ← image.width.put image.words address word
  return { image with words := words }

def ofList (width : Width) (entries : List (Address × Word)) : Except BitError Image := do
  let words ← width.putAll entries
  return ⟨width, words⟩

def ofWords (width : Width) (words : List Word) : Except BitError Image :=
  ofList width (words.zipIdx.map fun entry ↦ (UInt32.ofNat entry.2, entry.1))

def toList (image : Image) : List (Address × Word) :=
  image.words.toList

def size (image : Image) : Nat :=
  image.words.size

def isEmpty (image : Image) : Bool :=
  image.words.isEmpty

/-- The words of an image that covers the addresses from 0 on without a gap. -/
def toWords (image : Image) : Except LayoutError (List Word) :=
  (List.range image.size).mapM fun position ↦
    match image.get? (UInt32.ofNat position) with
    | some word => .ok word
    | none => .error (.missingWord (UInt32.ofNat position))

def addresses (a b : Image) : List Address :=
  (SortedMap.ofList ((a.words.keys ++ b.words.keys).map fun address ↦ (address, ()))).keys

/-- Every address at which the second image is not as the first one expects. -/
def diff (expected actual : Image) : List WordDiff :=
  (addresses expected actual).filterMap fun address ↦
    if expected.get? address = actual.get? address then
      none
    else
      some ⟨address, expected.get? address, actual.get? address⟩

/-- Reads a listing in which bare numbers are hexadecimal and no address is repeated. -/
def parse (text : String) (width : Width) : Except ListingError Image := do
  let words ← Listing.load .hex .hex width .reject text
  return ⟨width, words⟩

/-- Addresses are printed as `0x0f`. -/
def addressChars (address : Address) : List Char :=
  Numeral.paddedHexChars 2 address.toNat

def text (image : Image) : String :=
  Listing.text addressChars image.width image.toList

end Image

end ChipConfig
