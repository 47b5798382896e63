import ChipConfig.Json.Number
import ChipConfig.Json.Text

/-!
# JSON tokens

A JSON text is a run of tokens between blanks.  `scan` cuts a text into its tokens, or refuses it if
some part of it is none.
-/

namespace ChipConfig.Json

inductive Token where
  | openBracket
  | closeBracket
  | openBrace
  | closeBrace
  | comma
  | colon
  | null
  | bool (value : Bool)
  | number (number : Number)
  | text (written : Written)
deriving DecidableEq, Repr

namespace Token

def isSpace (c : Char) : Bool :=
  c = ' ' || c = '\n' || c = '\t' || c = '\r'

def isDigit (c : Char) : Bool :=
  '0' ≤ c && c ≤ '9'

/-- The value of four hexadecimal digits. -/
def unit? (digits : List Char) : Option Nat :=
  Numeral.digits? 16 digits

/-- The pieces up to the closing quote, and what follows it. -/
def scanText? : List Char → Option (Written × List Char)
  | [] => none
  | '"' :: rest => some ([], rest)
  | '\\' :: 'u' :: a :: b :: c :: d :: rest => do
    let value ← unit? [a, b, c, d]
    let (written, rest) ← scanText? rest
    return (.unit value :: written, rest)
  | '\\' :: letter :: rest => do
    let c ← Written.escaped? letter
    let (written, rest) ← scanText? rest
    return (.char c :: written, rest)
  | c :: rest =>
    if c < ' ' ∨ c = '\\' then
      none
    else do
      let (written, rest) ← scanText? rest
      return (.char c :: written, rest)

def scanDigits (cs : List Char) : List Char × List Char :=
  cs.span isDigit

/-- The digits before the point: one zero, or digits that do not start with zero. -/
def scanWhole? (cs : List Char) : Option (List Char × List Char) :=
  match scanDigits cs with
  | ([], _) => none
  | (['0'], rest) => some (['0'], rest)
  | ('0' :: _ :: _, _) => none
  | (digits, rest) => some (digits, rest)

def scanFraction? : List Char → Option (Option (List Char) × List Char)
  | '.' :: rest =>
    match scanDigits rest with
    | ([], _) => none
    | (digits, rest) => some (some digits, rest)
  | cs => some (none, cs)

def scanExponent? : List Char → Option (Option Exponent × List Char)
  | c :: rest =>
    if c = 'e' ∨ c = 'E' then
      let (negative, rest) :=
        match rest with
        | '-' :: rest => (true, rest)
        | '+' :: rest => (false, rest)
        | rest => (false, rest)
      match scanDigits rest with
      | ([], _) => none
      | (digits, rest) => some (some ⟨negative, digits⟩, rest)
    else
      some (none, c :: rest)
  | [] => some (none, [])

def scanNumber? (negative : Bool) (cs : List Char) : Option (Number × List Char) := do
  let (whole, rest) ← scanWhole? cs
  let (fraction, rest) ← scanFraction? rest
  let (exponent, rest) ← scanExponent? rest
  return (⟨negative, whole, fraction, exponent⟩, rest)

def next? : List Char → Option (Token × List Char)
  | '[' :: rest => some (openBracket, rest)
  | ']' :: rest => some (closeBracket, rest)
  | '\x7b' :: rest => some (openBrace, rest)
  | '\x7d' :: rest => some (closeBrace, rest)
  | ',' :: rest => some (comma, rest)
  | ':' :: rest => some (colon, rest)
  | 'n' :: 'u' :: 'l' :: 'l' :: rest => some (null, rest)
  | 't' :: 'r' :: 'u' :: 'e' :: rest => some (bool true, rest)
  | 'f' :: 'a' :: 'l' :: 's' :: 'e' :: rest => some (bool false, rest)
  | '"' :: rest => (scanText? rest).map fun (written, rest) ↦ (text written, rest)
  | '-' :: rest => (scanNumber? true rest).map fun (n, rest) ↦ (number n, rest)
  | cs => (scanNumber? false cs).map fun (n, rest) ↦ (number n, rest)

/-- The tokens of a text, as long as its length gives them room. -/
def scanWithin : Nat → List Char → Option (List Token)
  | _, [] => some []
  | 0, _ => none
  | room + 1, c :: rest =>
    if isSpace c then
      scanWithin room rest
    else do
      let (token, rest) ← next? (c :: rest)
      return token :: (← scanWithin room rest)

/-- The tokens of a text.  Each token takes at least one character, so the length of the text is
room enough. -/
def scan (cs : List Char) : Option (List Token) :=
  scanWithin cs.length cs

end Token

end ChipConfig.Json
