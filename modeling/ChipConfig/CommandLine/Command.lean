import ChipConfig.CommandLine.Grammar

/-!
# Commands

The tool has four commands: one builds an image, one reads registers back from an image, one shows
the fields of a configuration, and one compares two images.
-/

namespace ChipConfig.CommandLine

/-- The widths of registers and of image words, not yet checked. -/
structure WidthArguments where
  registerWidth : Nat
  wordWidth : Nat
deriving DecidableEq, Repr

structure ConfigurationArguments where
  rejectDuplicates : Bool
  decimalValues : Bool
deriving DecidableEq, Repr

/-- A command with its arguments.  Paths are text. -/
inductive Command where
  | encode (descriptor bitMap configuration : String) (output : Option String)
      (strictMissing : Bool) (widths : WidthArguments) (reading : ConfigurationArguments)
  | decode (bitMap image : String) (output : Option String) (strict : Bool)
      (widths : WidthArguments)
  | fields (descriptor configuration : String) (widths : WidthArguments)
      (reading : ConfigurationArguments)
  | diff (expected actual : String) (widths : WidthArguments)
deriving DecidableEq, Repr

def Command.inputs : Command → List String
  | encode descriptor bitMap configuration _ _ _ _ => [descriptor, bitMap, configuration]
  | decode bitMap image _ _ _ => [bitMap, image]
  | fields descriptor configuration _ _ => [descriptor, configuration]
  | diff expected actual _ => [expected, actual]

def longOption (name : String) (kind : OptionKind) : OptionSpec :=
  ⟨name.toList, none, kind⟩

/-- An option whose short name is the first letter of the long one. -/
def shortOption (name : String) (kind : OptionKind) : OptionSpec :=
  ⟨name.toList, name.toList.head?, kind⟩

def commonOptions : List OptionSpec :=
  [shortOption "verbose" .counter, shortOption "help" .answer]

/-- The options before the name of a command. -/
def mainOptions : List OptionSpec :=
  commonOptions ++ [⟨"version".toList, some 'V', .answer⟩]

def widthOptions : List OptionSpec :=
  [longOption "register-width" .number, longOption "word-width" .number]

def configurationOptions : List OptionSpec :=
  [longOption "reject-duplicates" .flag, longOption "decimal-values" .flag]

inductive CommandName where
  | encode
  | decode
  | fields
  | diff
deriving DecidableEq, Repr

namespace CommandName

def ofChars? (cs : List Char) : Option CommandName :=
  if cs = "encode".toList then some encode
  else if cs = "decode".toList then some decode
  else if cs = "fields".toList then some fields
  else if cs = "diff".toList then some diff
  else none

def options : CommandName → List OptionSpec
  | encode =>
    [shortOption "descriptor" .path, shortOption "bitmap" .path, shortOption "output" .path,
      longOption "strict-missing" .flag] ++ widthOptions ++ configurationOptions ++ commonOptions
  | decode =>
    [shortOption "bitmap" .path, shortOption "output" .path, longOption "strict" .flag] ++
      widthOptions ++ commonOptions
  | fields =>
    [shortOption "descriptor" .path] ++ widthOptions ++ configurationOptions ++ commonOptions
  | diff => widthOptions ++ commonOptions

def operandCount : CommandName → Nat
  | encode => 1
  | decode => 1
  | fields => 1
  | diff => 2

end CommandName

namespace Parsed

def path? (parsed : Parsed) (name : String) : Option String :=
  (parsed.value? name.toList).map String.ofList

/-- The number given with an option, 16 if it is not given. -/
def widthOf (parsed : Parsed) (name : String) : Nat :=
  ((parsed.value? name.toList).bind number?).getD 16

def widths (parsed : Parsed) : WidthArguments :=
  ⟨parsed.widthOf "register-width", parsed.widthOf "word-width"⟩

def reading (parsed : Parsed) : ConfigurationArguments :=
  ⟨parsed.has "reject-duplicates".toList, parsed.has "decimal-values".toList⟩

end Parsed

/-- The command that the arguments of a name make up, if none is missing. -/
def Command.ofParsed? (name : CommandName) (parsed : Parsed) : Option Command :=
  match name, parsed.operands.reverse.map String.ofList with
  | .encode, [configuration] => do
    return encode (← parsed.path? "descriptor") (← parsed.path? "bitmap") configuration
      (parsed.path? "output") (parsed.has "strict-missing".toList) parsed.widths parsed.reading
  | .decode, [image] => do
    return decode (← parsed.path? "bitmap") image (parsed.path? "output")
      (parsed.has "strict".toList) parsed.widths
  | .fields, [configuration] => do
    return fields (← parsed.path? "descriptor") configuration parsed.widths parsed.reading
  | .diff, [expected, actual] => some (diff expected actual parsed.widths)
  | _, _ => none

def readCommand (name : CommandName) (arguments : List (List Char)) : Except Stop Command := do
  let parsed ← readArguments name.options name.operandCount ⟨[], []⟩ arguments
  match Command.ofParsed? name parsed with
  | some command => return command
  | none => throw .misused

/-- Reads the names behind `help`: one command at most, or `help` itself. -/
def readHelp : List (List Char) → Stop
  | [] => .answered
  | [topic] =>
    if (CommandName.ofChars? topic).isSome || topic = "help".toList then .answered else .misused
  | _ => .misused

/-- Reads the arguments up to the name of a command, and then those of the command. -/
def readMain (parsed : Parsed) : List (List Char) → Except Stop Command
  | [] => .error .misused
  | ['-', '-'] :: _ => .error .misused
  | argument :: arguments =>
    let rest :=
      match argument with
      | '-' :: '-' :: long => some (readLong mainOptions parsed long)
      | '-' :: letter :: letters => some (readShort mainOptions parsed (letter :: letters))
      | _ => none
    match rest with
    | some (.error stop) => .error stop
    | some (.ok (.done parsed)) => readMain parsed arguments
    | some (.ok (.needsValue _ _)) => .error .misused
    | none =>
      if argument = "help".toList then
        .error (readHelp arguments)
      else
        match CommandName.ofChars? argument with
        | some name => readCommand name arguments
        | none => .error .misused

def Command.ofArguments (arguments : List String) : Except Stop Command :=
  readMain ⟨[], []⟩ (arguments.map String.toList)

end ChipConfig.CommandLine
