import ChipConfig.Width

/-!
# Bit ranges

A bit range names the bits `low` to `high` of a word, both ends included.  `extract` reads the
range right-aligned and `insert` replaces it and keeps every other bit; both refuse a range that
does not lie in order inside the word.
-/

namespace ChipConfig

/-- The bits `low` to `high` of a word, both included. -/
structure BitRange where
  low : Nat
  high : Nat
deriving DecidableEq, Repr

namespace BitRange

def single (bit : Nat) : BitRange :=
  ⟨bit, bit⟩

def length (range : BitRange) : Nat :=
  range.high - range.low + 1

/-- Accepts the ranges inside a word and gives their length.  The low end is looked at first, then
the high end, and their order last. -/
def check (range : BitRange) (width : Width) : Except BitError Nat := do
  let _ ← width.checkIndex range.low
  let _ ← width.checkIndex range.high
  if range.high < range.low then
    throw (.invertedRange range.low range.high)
  return range.length

/-- The range of a word, moved down to bit 0. -/
def extract (range : BitRange) (width : Width) (word : Word) : Except BitError Word := do
  let length ← range.check width
  return ((word &&& width.mask) >>> range.low) &&& Word.lowMask length

def insert (range : BitRange) (width : Width) (word value : Word) : Except BitError Word := do
  let length ← range.check width
  if value &&& ~~~Word.lowMask length ≠ 0 then
    throw (.valueTooWide value length)
  let mask := Word.lowMask length <<< range.low
  return ((word &&& ~~~mask) ||| (value <<< range.low)) &&& width.mask

end BitRange

def Word.bit (word : Word) (width : Width) (index : Nat) : Except BitError Bool := do
  let _ ← width.checkIndex index
  return word.getLsbD index

end ChipConfig
