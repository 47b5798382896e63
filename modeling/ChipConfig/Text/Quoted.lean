import ChipConfig.Text.Combining
import ChipConfig.Text.Numeral
import ChipConfig.Text.Unprintable

/-!
# Quoted text

Messages show a piece of input between double quotes, so that its ends and its invisible characters
can be seen.  A character that could be mistaken is written as an escape: the quote, the backslash
and the common controls by a letter, and everything unprintable or combining by its code point.
-/

namespace ChipConfig.Text

def quotedChar (c : Char) : List Char :=
  match c with
  | '"' => ['\\', '"']
  | '\\' => ['\\', '\\']
  | '\n' => ['\\', 'n']
  | '\r' => ['\\', 'r']
  | '\t' => ['\\', 't']
  | '\x00' => ['\\', '0']
  | c =>
    if isUnprintable c || isCombining c then
      ['\\', 'u', '\x7b'] ++ Nat.toDigits 16 c.toNat ++ ['\x7d']
    else
      [c]

/-- The text between double quotes, with escapes where they are needed. -/
def quoted (text : String) : String :=
  String.ofList ('"' :: text.toList.flatMap quotedChar ++ ['"'])

end ChipConfig.Text
