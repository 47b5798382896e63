import ChipConfig.Text.Blank

/-!
# Access modes

A register can be read, written, both or neither.  A field that is spread over several registers
can be used only in the ways that all of them allow, which is the meet of their modes.
-/

namespace ChipConfig

/-- How a register, and with it the fields inside it, may be accessed. -/
inductive AccessMode where
  | reserved
  | readOnly
  | writeOnly
  | readWrite
deriving DecidableEq, Repr, Inhabited

namespace AccessMode

def ofAccess (readable writable : Bool) : AccessMode :=
  match readable, writable with
  | true, true => readWrite
  | true, false => readOnly
  | false, true => writeOnly
  | false, false => reserved

/-- The mode that a description names.  Letter case, slashes, underscores, hyphens and spaces do
not matter. -/
def ofText? (text : String) : Option AccessMode :=
  let separators : List Char := ['/', '_', ' ', '-']
  let letters := Text.upper (text.toList.filter fun c ↦ !separators.contains c)
  if letters = ['R'] ∨ letters = ['R', 'O'] then some readOnly
  else if letters = ['W'] ∨ letters = ['W', 'O'] then some writeOnly
  else if letters = ['R', 'W'] ∨ letters = ['W', 'R'] then some readWrite
  else if letters = "RESERVED".toList ∨ letters = "RSVD".toList then some reserved
  else none

def isReadable (mode : AccessMode) : Bool :=
  mode = readOnly || mode = readWrite

def isWritable (mode : AccessMode) : Bool :=
  mode = writeOnly || mode = readWrite

/-- What both modes allow. -/
def meet (a b : AccessMode) : AccessMode :=
  ofAccess (a.isReadable && b.isReadable) (a.isWritable && b.isWritable)

def text : AccessMode → String
  | reserved => "reserved"
  | readOnly => "read-only"
  | writeOnly => "write-only"
  | readWrite => "read-write"

end AccessMode

end ChipConfig
