/-!
# Words and addresses

A word is a vector of 64 bits, bit 0 being the least significant one.  Registers and image words
are narrower than that: they keep their bits in the low part of a `Word`, and `Width` says how
many of them count.
-/

namespace ChipConfig

/-- Number of a register, or address of a word in an image. -/
abbrev Address := UInt32

/-- The largest machine word a register or an image can be made of. -/
abbrev Word := BitVec 64

namespace Word

/-- The word whose low `n` bits are set; from 64 on every bit is. -/
def lowMask (n : Nat) : Word :=
  BitVec.allOnes 64 >>> (64 - n)

/-- The word with the bits of a list, the most significant bit first.  Bits that a longer list
pushes past position 63 are lost. -/
def ofBits (bits : List Bool) : Word :=
  bits.foldl (fun word bit ↦ (word <<< 1) ||| (BitVec.ofBool bit).setWidth 64) 0

/-- The low `bits` bits of a word read as a two's complement number; no bits at all are zero. -/
def signExtend (word : Word) (bits : Nat) : Int :=
  (word.setWidth (min bits 64)).toInt

end Word

end ChipConfig
