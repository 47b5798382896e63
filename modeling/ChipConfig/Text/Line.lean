import ChipConfig.Text.Blank

/-!
# Lines

A line ends with a line feed, or with a carriage return before a line feed; the last line may go
without.  Tables hold one entry to a line: a `#` starts a comment, and the words before it are what
counts.
-/

namespace ChipConfig.Text

/-- The lines of a text without their ends.  A carriage return that stands before no line feed
stays in its line. -/
def lines : List Char → List (List Char)
  | [] => []
  | '\n' :: rest => [] :: lines rest
  | '\r' :: '\n' :: rest => [] :: lines rest
  | c :: rest =>
    match lines rest with
    | [] => [[c]]
    | line :: later => (c :: line) :: later

/-- A line of a table that has something to say: its number, counted from 1, its whole text, and
the words before its comment. -/
structure Row where
  number : Nat
  text : String
  words : List (List Char)
deriving DecidableEq, Repr

/-- The line up to its first `#`, without the blanks at its ends. -/
def content (line : List Char) : List Char :=
  trim (line.takeWhile (· ≠ '#'))

def rowsFrom (number : Nat) : List (List Char) → List Row
  | [] => []
  | line :: rest =>
    if (content line).isEmpty then
      rowsFrom (number + 1) rest
    else
      ⟨number, String.ofList line, words (content line)⟩ :: rowsFrom (number + 1) rest

def rows (text : String) : List Row :=
  rowsFrom 1 (lines text.toList)

end ChipConfig.Text
