import ChipConfig.Text.Blank
import ChipConfig.Text.Numeral

/-!
# The grammar of arguments

A command takes options and operands in any order.  An option has a long name, perhaps a short one,
and perhaps a value; short options can stand together behind one hyphen, and a value can follow its
option at once, behind an equals sign, or as the next argument.  After `--` everything is an
operand.  Arguments are looked at one after the other, and the first one that asks for help or is
wrong ends the reading.
-/

namespace ChipConfig.CommandLine

/-- Why no command is run. -/
inductive Stop where
  /-- Help or the version was asked for and is shown instead. -/
  | answered
  | misused
deriving DecidableEq, Repr

inductive OptionKind where
  /-- No value; it may be given once. -/
  | flag
  /-- No value; it may be repeated. -/
  | counter
  /-- A whole number below `2 ^ 32`. -/
  | number
  /-- A path that is not empty. -/
  | path
  /-- No value; it ends the reading. -/
  | answer
deriving DecidableEq, Repr

def OptionKind.takesValue : OptionKind → Bool
  | number => true
  | path => true
  | _ => false

structure OptionSpec where
  name : List Char
  short : Option Char
  kind : OptionKind
deriving DecidableEq, Repr

structure Parsed where
  /-- The options given and their values, the last one first; no value is empty. -/
  options : List (List Char × List Char)
  /-- The operands, the last one first. -/
  operands : List (List Char)
deriving DecidableEq, Repr

namespace Parsed

def has (parsed : Parsed) (name : List Char) : Bool :=
  parsed.options.any fun given ↦ given.1 = name

def value? (parsed : Parsed) (name : List Char) : Option (List Char) :=
  (parsed.options.find? fun given ↦ given.1 = name).map Prod.snd

end Parsed

/-- The number that an argument means: digits behind an optional sign.  Only zero may be
negative. -/
def number? : List Char → Option Nat
  | '-' :: digits => (Numeral.digits? 10 digits).filter (· = 0)
  | cs => Numeral.bounded? 10 UInt32.size cs

/-- Whether an argument, as the next one, can be no value: it starts with a hyphen and goes on. -/
def looksLikeOption : List Char → Bool
  | '-' :: _ :: _ => true
  | _ => false

def noteOption (option : OptionSpec) (value : List Char) (parsed : Parsed) :
    Except Stop Parsed :=
  let noted : Parsed := { parsed with options := (option.name, value) :: parsed.options }
  match option.kind with
  | .answer => .error .answered
  | .counter => .ok noted
  | .flag => if parsed.has option.name then .error .misused else .ok noted
  | .path => if parsed.has option.name || value.isEmpty then .error .misused else .ok noted
  | .number =>
    if parsed.has option.name || (number? value).isNone then .error .misused else .ok noted

def noteOperand (room : Nat) (operand : List Char) (parsed : Parsed) : Except Stop Parsed :=
  if operand.isEmpty || room ≤ parsed.operands.length then
    .error .misused
  else
    .ok { parsed with operands := operand :: parsed.operands }

inductive Rest where
  /-- Nothing: go on with the next argument. -/
  | done (parsed : Parsed)
  /-- The next argument is the value of the option. -/
  | needsValue (option : OptionSpec) (parsed : Parsed)

def readLong (options : List OptionSpec) (parsed : Parsed) (argument : List Char) :
    Except Stop Rest :=
  let (name, value) :=
    match Text.splitFirst? '=' argument with
    | some (name, value) => (name, some value)
    | none => (argument, none)
  match options.find? fun option ↦ option.name = name with
  | none => .error .misused
  | some option =>
    match option.kind.takesValue, value with
    | true, some value => do return .done (← noteOption option value parsed)
    | true, none => .ok (.needsValue option parsed)
    | false, none => do return .done (← noteOption option [] parsed)
    | false, some _ => .error .misused

def readShort (options : List OptionSpec) (parsed : Parsed) : List Char → Except Stop Rest
  | [] => .ok (.done parsed)
  | letter :: rest =>
    match options.find? fun option ↦ option.short = some letter with
    | none => .error .misused
    | some option =>
      if option.kind.takesValue then
        match rest with
        | [] => .ok (.needsValue option parsed)
        | '=' :: value => do return .done (← noteOption option value parsed)
        | value => do return .done (← noteOption option value parsed)
      else do
        readShort options (← noteOption option [] parsed) rest

/-- Reads the operands behind `--`. -/
def readOperands (room : Nat) (parsed : Parsed) (arguments : List (List Char)) :
    Except Stop Parsed :=
  arguments.foldlM (fun parsed operand ↦ noteOperand room operand parsed) parsed

def readArguments (options : List OptionSpec) (room : Nat) (parsed : Parsed) :
    List (List Char) → Except Stop Parsed
  | [] => .ok parsed
  | ['-', '-'] :: arguments => readOperands room parsed arguments
  | argument :: arguments => do
    let rest ←
      match argument with
      | '-' :: '-' :: long => readLong options parsed long
      | '-' :: letter :: letters => readShort options parsed (letter :: letters)
      | operand => do pure (.done (← noteOperand room operand parsed))
    match rest with
    | .done parsed => readArguments options room parsed arguments
    | .needsValue option parsed =>
      match arguments with
      | [] => .error .misused
      | value :: arguments =>
        if looksLikeOption value then
          .error .misused
        else do
          readArguments options room (← noteOption option value parsed) arguments

end ChipConfig.CommandLine
