import ChipConfig.Json.Token

/-!
# JSON values

A JSON value is read from its tokens by a machine that keeps the lists and objects it is inside of.
Writing gives the shortest text: no blanks, and members in the order they have.
-/

namespace ChipConfig

/-- A JSON value.  Texts and numbers are kept as they were written, members in their order. -/
inductive Json where
  | null
  | bool (value : Bool)
  | number (number : Json.Number)
  | text (written : Json.Written)
  | list (items : List Json)
  | object (members : List (Json.Written × Json))
deriving Repr

namespace Json

/-- A list or an object that has been begun, its last part first. -/
inductive Frame where
  | list (items : List Json)
  /-- An object that waits for the value of a key. -/
  | member (members : List (Written × Json)) (key : Written)

/-- What may come next, inside of which frames. -/
inductive Progress where
  | value (frames : List Frame)
  /-- A list has been opened: a value or the end of the list follows. -/
  | opened (frames : List Frame)
  /-- An object has been opened: a key or the end of the object follows. -/
  | openedObject (frames : List Frame)
  | key (members : List (Written × Json)) (frames : List Frame)
  | colon (members : List (Written × Json)) (key : Written) (frames : List Frame)
  /-- A value is complete: a comma or the end of its frame follows, or nothing at all. -/
  | complete (value : Json) (frames : List Frame)

namespace Progress

def begin? (frames : List Frame) : Token → Option Progress
  | .null => some (complete .null frames)
  | .bool b => some (complete (.bool b) frames)
  | .number n => some (complete (.number n) frames)
  | .text t => some (complete (.text t) frames)
  | .openBracket => some (opened frames)
  | .openBrace => some (openedObject frames)
  | _ => none

def step? (progress : Progress) (token : Token) : Option Progress :=
  match progress, token with
  | value frames, token => begin? frames token
  | opened frames, .closeBracket => some (complete (.list []) frames)
  | opened frames, token => begin? (.list [] :: frames) token
  | openedObject frames, .closeBrace => some (complete (.object []) frames)
  | openedObject frames, .text k => some (colon [] k frames)
  | key members frames, .text k => some (colon members k frames)
  | colon members k frames, .colon => some (value (.member members k :: frames))
  | complete j (.list items :: frames), .comma => some (value (.list (j :: items) :: frames))
  | complete j (.list items :: frames), .closeBracket =>
    some (complete (.list (j :: items).reverse) frames)
  | complete j (.member members k :: frames), .comma => some (key ((k, j) :: members) frames)
  | complete j (.member members k :: frames), .closeBrace =>
    some (complete (.object ((k, j) :: members).reverse) frames)
  | _, _ => none

def result? : Progress → Option Json
  | complete j [] => some j
  | _ => none

end Progress

def ofTokens? (tokens : List Token) : Option Json := do
  let progress ← tokens.foldlM Progress.step? (.value [])
  progress.result?

def parse? (text : String) : Option Json := do
  ofTokens? (← Token.scan text.toList)

def unitChars (value : Nat) : List Char :=
  let digits := Nat.toDigits 16 value
  List.replicate (4 - digits.length) '0' ++ digits

def Piece.chars : Piece → List Char
  | char c =>
    match Written.escapeLetter? c with
    | some letter => ['\\', letter]
    | none => [c]
  | unit value => '\\' :: 'u' :: unitChars value

/-- A text between its quotes. -/
def Written.chars (written : Written) : List Char :=
  '"' :: written.flatMap Piece.chars ++ ['"']

mutual

def chars : Json → List Char
  | null => ['n', 'u', 'l', 'l']
  | bool true => ['t', 'r', 'u', 'e']
  | bool false => ['f', 'a', 'l', 's', 'e']
  | number n => n.chars
  | text t => t.chars
  | list [] => ['[', ']']
  | list (item :: items) => '[' :: chars item ++ itemsChars items ++ [']']
  | object [] => ['\x7b', '\x7d']
  | object ((key, item) :: members) =>
    '\x7b' :: Written.chars key ++ ':' :: chars item ++ membersChars members ++ ['\x7d']

/-- The items of a list after the first one. -/
def itemsChars : List Json → List Char
  | [] => []
  | item :: items => ',' :: chars item ++ itemsChars items

/-- The members of an object after the first one. -/
def membersChars : List (Written × Json) → List Char
  | [] => []
  | (key, item) :: members =>
    ',' :: Written.chars key ++ ':' :: chars item ++ membersChars members

end

def render (json : Json) : String :=
  String.ofList json.chars

mutual

/-- Whether a value can be read ahead before it is known what it is for: every text in it is one,
no number is too large, and lists and objects nest at most that deep. -/
def isReadable : Nat → Json → Bool
  | _, null => true
  | _, bool _ => true
  | _, number n => n.double?.isSome
  | _, text t => t.text?.isSome
  | 0, list _ => false
  | depth + 1, list items => areReadable depth items
  | 0, object _ => false
  | depth + 1, object members => membersReadable depth members

def areReadable : Nat → List Json → Bool
  | _, [] => true
  | depth, item :: items => isReadable depth item && areReadable depth items

def membersReadable : Nat → List (Written × Json) → Bool
  | _, [] => true
  | depth, (key, item) :: members =>
    key.text?.isSome && isReadable depth item && membersReadable depth members

end

end Json

end ChipConfig
