/-!
# JSON text

JSON writes a text between double quotes.  What stands there is a run of pieces: characters, and
escapes that give one unit of UTF-16.  Two units can stand for one character, and a unit may also be
half of a character that never comes; such a run of pieces is well written and still no text.
-/

namespace ChipConfig.Json

/-- A piece of a text between quotes. -/
inductive Piece where
  /-- A character, written as it is or by a short escape. -/
  | char (c : Char)
  /-- An escape `\uXXXX`: a unit of UTF-16. -/
  | unit (value : Nat)
deriving DecidableEq, Repr

abbrev Written := List Piece

namespace Written

/-- The character that a high and a low half stand for. -/
def join? (high low : Nat) : Option Char :=
  if 0xdc00 ≤ low ∧ low ≤ 0xdfff then
    some (Char.ofNat (0x10000 + (high - 0xd800) * 0x400 + (low - 0xdc00)))
  else
    none

/-- The characters of a run of pieces, if every half of a character has its other half. -/
def chars? : Written → Option (List Char)
  | [] => some []
  | .char c :: rest => (chars? rest).map (c :: ·)
  | .unit high :: .unit low :: rest =>
    if high < 0xd800 ∨ 0xdfff < high then
      (chars? (.unit low :: rest)).map (Char.ofNat high :: ·)
    else if high < 0xdc00 then do
      let c ← join? high low
      (chars? rest).map (c :: ·)
    else
      none
  | .unit value :: rest =>
    if value < 0xd800 ∨ 0xdfff < value then
      (chars? rest).map (Char.ofNat value :: ·)
    else
      none

def text? (written : Written) : Option String :=
  (chars? written).map String.ofList

/-- The piece that a character is written as: a control without a short escape needs its code. -/
def pieceOf (c : Char) : Piece :=
  if c < ' ' ∧ c ≠ '\x08' ∧ c ≠ '\x0c' ∧ c ≠ '\n' ∧ c ≠ '\r' ∧ c ≠ '\t' then
    .unit c.toNat
  else
    .char c

def ofText (text : String) : Written :=
  text.toList.map pieceOf

/-- The letter of the short escape of a character, if it has to be escaped that way. -/
def escapeLetter? : Char → Option Char
  | '"' => some '"'
  | '\\' => some '\\'
  | '\x08' => some 'b'
  | '\x0c' => some 'f'
  | '\n' => some 'n'
  | '\r' => some 'r'
  | '\t' => some 't'
  | _ => none

def escaped? : Char → Option Char
  | '"' => some '"'
  | '\\' => some '\\'
  | '/' => some '/'
  | 'b' => some '\x08'
  | 'f' => some '\x0c'
  | 'n' => some '\n'
  | 'r' => some '\r'
  | 't' => some '\t'
  | _ => none

end Written

end ChipConfig.Json
