import ChipConfig.BitSource
import ChipConfig.SortedMap
import ChipConfig.Text.Line
import ChipConfig.Text.Quoted
import ChipConfig.Width

/-!
# Bit maps

A bit map says for every bit of every word of an image where it comes from.  The sources of a word
are listed with the most significant bit first: position 0 is the top bit.  A register bit is shown
at most once in the whole map, which is what lets an image be read back without ambiguity.
-/

namespace ChipConfig

inductive BitMapError where
  /-- The row does not even have an address. -/
  | malformed (line : Nat) (text : String)
  | invalidAddress (line : Nat) (text : String)
  | invalidToken (address : Address) (position : Nat) (token : String)
  /-- The word has more or fewer sources than bits. -/
  | wrongLength (address : Address) (expected found : Nat)
  | duplicateAddress (address : Address)
  /-- The register bit is shown already. -/
  | duplicateReference (address : Address) (position : Nat) (place : RegisterBit)
  | bit (cause : BitError)
  | unreadable
deriving DecidableEq, Repr

def BitMapError.message : BitMapError → String
  | malformed line text => s!"line {line}: malformed entry {Text.quoted text}"
  | invalidAddress line text => s!"line {line}: invalid address {Text.quoted text}"
  | invalidToken address position token =>
    s!"word {Numeral.hex address.toNat}, position {position}: " ++
      s!"invalid bit token {Text.quoted token}"
  | wrongLength address expected found =>
    s!"word {Numeral.hex address.toNat} has {found} bit sources, expected {expected}"
  | duplicateAddress address => s!"word {Numeral.hex address.toNat} is declared twice"
  | duplicateReference address position place =>
    s!"word {Numeral.hex address.toNat}, position {position}: " ++
      s!"R{place.register}[{place.bit}] is already projected"
  | bit cause => cause.message
  | unreadable => "bitmap JSON"

/-- The sources of the words of an image, by their addresses. -/
structure BitMap where
  width : Width
  words : SortedMap Address (List BitSource)
  /-- The register bits that some word shows. -/
  references : SortedMap RegisterBit Unit
deriving DecidableEq

namespace BitMap

def empty (width : Width) : BitMap :=
  ⟨width, ∅, ∅⟩

/-- Adds the register bits among the sources from a position on to those shown so far, unless one
of them is shown already. -/
def reserve (address : Address) (position : Nat) (references : SortedMap RegisterBit Unit) :
    List BitSource → Except BitMapError (SortedMap RegisterBit Unit)
  | [] => .ok references
  | .register place :: rest =>
    if references.contains place then
      .error (.duplicateReference address position place)
    else
      reserve address (position + 1) (references.insert place ()) rest
  | _ :: rest => reserve address (position + 1) references rest

/-- Describes a word by its sources, the most significant bit first. -/
def insert (map : BitMap) (address : Address) (sources : List BitSource) :
    Except BitMapError BitMap := do
  if sources.length ≠ map.width.bits then
    throw (.wrongLength address map.width.bits sources.length)
  if map.words.contains address then
    throw (.duplicateAddress address)
  let references ← reserve address 0 map.references sources
  return { map with words := map.words.insert address sources, references }

def sourcesOf (address : Address) : Nat → List String → Except BitMapError (List BitSource)
  | _, [] => .ok []
  | position, token :: rest => do
    match BitSource.ofToken? token with
    | none => throw (.invalidToken address position token)
    | some source => return source :: (← sourcesOf address (position + 1) rest)

def insertTokens (map : BitMap) (address : Address) (tokens : List String) :
    Except BitMapError BitMap := do
  map.insert address (← sourcesOf address 0 tokens)

/-- The address a decimal or `0x` token stands for. -/
def address? (token : List Char) : Option Address :=
  ((Numeral.word? .decimal token).filter (· < UInt32.size)).map UInt32.ofNat

/-- Adds the word that a row of a table describes: its address, then its tokens. -/
def insertRow (map : BitMap) (row : Text.Row) : Except BitMapError BitMap :=
  match row.words with
  | [] => .error (.malformed row.number row.text)
  | address :: tokens =>
    match address? address with
    | none => .error (.invalidAddress row.number (String.ofList address))
    | some a => map.insertTokens a (tokens.map String.ofList)

def parse (text : String) (width : Width) : Except BitMapError BitMap :=
  (Text.rows text).foldlM insertRow (empty width)

def toList (map : BitMap) : List (Address × List BitSource) :=
  map.words.toList

def rowChars (entry : Address × List BitSource) : List Char :=
  Numeral.decimalChars entry.1.toNat ++
    entry.2.flatMap (fun source ↦ ' ' :: source.tokenChars) ++ ['\n']

def text (map : BitMap) : String :=
  String.ofList (map.toList.flatMap rowChars)

def get? (map : BitMap) (address : Address) : Option (List BitSource) :=
  map.words.get? address

/-- The bit of a word that a position in its list of sources stands for. -/
def wordBit (map : BitMap) (position : Nat) : Nat :=
  map.width.bits - 1 - position

def registerBits (map : BitMap) : List RegisterBit :=
  map.words.values.flatMap fun sources ↦ sources.filterMap BitSource.registerBit

/-- The registers of which some word shows a bit, in ascending order. -/
def referencedRegisters (map : BitMap) : List Address :=
  (SortedMap.ofList (map.registerBits.map fun place ↦ (place.register, ()))).keys

/-- The bits of a register that some word shows.  Bits above a machine word are left out. -/
def projectedBits (map : BitMap) (register : Address) : Word :=
  map.registerBits.foldl
    (fun mask place ↦
      if place.register = register ∧ place.bit.toNat < 64 then
        mask ||| BitVec.twoPow 64 place.bit.toNat
      else
        mask)
    0

end BitMap

end ChipConfig
