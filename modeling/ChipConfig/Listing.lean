import ChipConfig.SortedMap
import ChipConfig.Text.Line
import ChipConfig.Text.Numeral
import ChipConfig.Text.Quoted
import ChipConfig.Width

/-!
# Listings

A listing is a table with an address and a word on each row.  Register configurations and images are
written this way and differ in the radix of their bare numbers.  A listing is first read as a whole;
only then are the words held against a width and repeated addresses against a policy, so a row that
cannot be read is reported before a word that does not fit.
-/

namespace ChipConfig

/-- Why a listing is refused; every reason names the row. -/
inductive ListingError where
  /-- The row has not exactly two words. -/
  | malformed (line : Nat) (text : String)
  /-- One of the two words is no number of its range. -/
  | invalidNumber (line : Nat) (text : String)
  | duplicate (line : Nat) (address : Address)
  | bit (line : Nat) (cause : BitError)
deriving DecidableEq, Repr

namespace ListingError

def message : ListingError → String
  | malformed line text => s!"line {line}: expected `<register> <value>`, got {Text.quoted text}"
  | invalidNumber line text => s!"line {line}: invalid number {Text.quoted text}"
  | duplicate line address =>
    s!"line {line}: register {Numeral.hex address.toNat} was already set"
  | bit line cause => s!"line {line}: {cause.message}"

def chain (error : ListingError) : List String :=
  match error with
  | bit _ cause => [error.message, cause.message]
  | _ => [error.message]

end ListingError

/-- What to do when a listing names an address twice. -/
inductive DuplicatePolicy where
  | lastWins
  | reject
deriving DecidableEq, Repr, Inhabited

namespace Listing

structure Entry where
  line : Nat
  address : Address
  word : Word
deriving DecidableEq, Repr

/-- The number token of an address: a register letter in front of it does not count. -/
def addressToken : List Char → List Char
  | 'R' :: digits => digits
  | 'r' :: digits => digits
  | token => token

def address? (radix : Radix) (token : List Char) : Option Address :=
  ((Numeral.word? radix token).filter (· < UInt32.size)).map UInt32.ofNat

def word? (radix : Radix) (token : List Char) : Option Word :=
  (Numeral.word? radix token).map (BitVec.ofNat 64)

def Entry.ofRow (addressRadix wordRadix : Radix) (row : Text.Row) : Except ListingError Entry :=
  match row.words with
  | [address, word] =>
    match address? addressRadix (addressToken address) with
    | none => .error (.invalidNumber row.number (String.ofList address))
    | some a =>
      match word? wordRadix word with
      | none => .error (.invalidNumber row.number (String.ofList word))
      | some w => .ok ⟨row.number, a, w⟩
  | _ => .error (.malformed row.number row.text)

def parse (addressRadix wordRadix : Radix) (text : String) : Except ListingError (List Entry) :=
  (Text.rows text).mapM (Entry.ofRow addressRadix wordRadix)

def add (width : Width) (policy : DuplicatePolicy) (words : SortedMap Address Word)
    (entry : Entry) : Except ListingError (SortedMap Address Word) :=
  match width.check entry.word with
  | .error cause => .error (.bit entry.line cause)
  | .ok word =>
    if policy = .reject ∧ words.contains entry.address then
      .error (.duplicate entry.line entry.address)
    else
      .ok (words.insert entry.address word)

def load (addressRadix wordRadix : Radix) (width : Width) (policy : DuplicatePolicy)
    (text : String) : Except ListingError (SortedMap Address Word) := do
  let entries ← parse addressRadix wordRadix text
  entries.foldlM (add width policy) ∅

/-- The printed row of a word.  Kinds of listings differ in the way they print addresses. -/
def rowChars (addressChars : Address → List Char) (width : Width) (entry : Address × Word) :
    List Char :=
  addressChars entry.1 ++ ' ' :: Numeral.paddedHexChars width.hexDigits entry.2.toNat ++ ['\n']

def text (addressChars : Address → List Char) (width : Width) (entries : List (Address × Word)) :
    String :=
  String.ofList (entries.flatMap (rowChars addressChars width))

end Listing

end ChipConfig
