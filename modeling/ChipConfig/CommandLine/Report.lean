import ChipConfig.CommandLine.Command
import ChipConfig.Document.BitMap
import ChipConfig.Document.Description
import ChipConfig.Layout.Decode
import ChipConfig.Layout.Encode

/-!
# Reports

A command reads its files and answers with a text.  How files are read is an argument, so that a
report is a function of what the files hold.  Files are read in the order in which a command needs
them, and the first thing that goes wrong decides: a width that does not exist is found before the
files that depend on it are opened.
-/

namespace ChipConfig.CommandLine

/-- Why a command fails, the outermost reason first. -/
abbrev Failure := List String

/-- The text of a file, or what the system says about it. -/
abbrev Reader := String → Except String String

/-- Puts the causes of an error behind what was being done. -/
def explain {ε α : Type} (activity : String) (chain : ε → List String) (result : Except ε α) :
    Except Failure α :=
  result.mapError fun error ↦ activity :: chain error

def Reader.open (read : Reader) (path : String) : Except Failure String :=
  explain s!"reading {path}" ([·]) (read path)

def loadWidth (noun : String) (bits : Nat) : Except Failure Width :=
  explain s!"invalid {noun} width" (fun error ↦ [error.message]) (Width.ofBits bits)

def fileName (path : List Char) : List Char :=
  match Text.splitLast? '/' path with
  | some (_, name) => name
  | none => path

/-- Whether a path ends in `.json`, in letters of any case, behind a name. -/
def namesDocument (path : String) : Bool :=
  match Text.splitLast? '.' (fileName path.toList) with
  | some (stem, kind) => !stem.isEmpty && Text.upper kind = "JSON".toList
  | none => false

def loadRegisterMap (read : Reader) (path : String) (width : Width) :
    Except Failure RegisterMap := do
  let text ← read.open path
  explain s!"loading descriptor {path}" DescriptionError.chain (RegisterMap.parse text width ∅)

/-- The bit map of a file.  A document brings its own width. -/
def loadBitMap (read : Reader) (path : String) (width : Width) : Except Failure BitMap := do
  let text ← read.open path
  explain s!"loading bit map {path}" (fun error ↦ [error.message])
    (if namesDocument path then BitMap.parseDocument text else BitMap.parse text width)

def ConfigurationArguments.options (arguments : ConfigurationArguments) :
    RegisterFile.ParseOptions where
  duplicates := if arguments.rejectDuplicates then .reject else .lastWins
  radix := if arguments.decimalValues then .decimal else .hex

def loadConfiguration (read : Reader) (path : String) (width : Width)
    (reading : ConfigurationArguments) : Except Failure RegisterFile := do
  let text ← read.open path
  explain s!"loading configuration {path}" ListingError.chain
    (RegisterFile.parse text width reading.options)

def loadImage (read : Reader) (path : String) (width : Width) : Except Failure Image := do
  let text ← read.open path
  explain s!"loading image {path}" ListingError.chain (Image.parse text width)

def encodeReport (read : Reader) (descriptor bitMap configuration : String) (strictMissing : Bool)
    (widths : WidthArguments) (reading : ConfigurationArguments) : Except Failure String := do
  let registerWidth ← loadWidth "register" widths.registerWidth
  let map ← loadRegisterMap read descriptor registerWidth
  let wordWidth ← loadWidth "word" widths.wordWidth
  let bitMap ← loadBitMap read bitMap wordWidth
  let file ← loadConfiguration read configuration registerWidth reading
  let policy := if strictMissing then MissingPolicy.reject else .zero
  let encoded ← explain "encoding image" (fun error ↦ [error.message])
    (Layout.encode policy map bitMap file)
  return encoded.image.text

/-- The registers of an image as text.  A strict reading refuses fixed bits that are wrong. -/
def decodeReport (read : Reader) (bitMap image : String) (strict : Bool)
    (widths : WidthArguments) : Except Failure String := do
  let wordWidth ← loadWidth "word" widths.wordWidth
  let bitMap ← loadBitMap read bitMap wordWidth
  let image ← loadImage read image bitMap.width
  let registerWidth ← loadWidth "register" widths.registerWidth
  let decoded ← explain "decoding image" (fun error ↦ [error.message])
    (Layout.decode image bitMap registerWidth)
  if strict && !decoded.mismatches.isEmpty then
    throw [s!"{decoded.mismatches.length} fixed bits read back wrong"]
  return decoded.registers.text

def fieldsReport (read : Reader) (descriptor configuration : String) (widths : WidthArguments)
    (reading : ConfigurationArguments) : Except Failure String := do
  let registerWidth ← loadWidth "register" widths.registerWidth
  let map ← loadRegisterMap read descriptor registerWidth
  let file ← loadConfiguration read configuration registerWidth reading
  let fields ← explain "reading fields" FieldError.chain (map.readFields file)
  return String.join (fields.map fun (name, value) ↦ s!"{name} = {value.text}\n")

def wordText : Option Word → String
  | some word => Numeral.hex word.toNat
  | none => "-"

def differenceLine (diff : WordDiff) : String :=
  let address := String.ofList (Numeral.paddedHexChars 2 diff.address.toNat)
  s!"{address}\texpected: {wordText diff.expected}\tactual: {wordText diff.actual}\n"

/-- The words in which an image differs from the expected one, and how many they are. -/
def diffReport (read : Reader) (expected actual : String) (widths : WidthArguments) :
    Except Failure (String × Nat) := do
  let width ← loadWidth "word" widths.wordWidth
  let expected ← loadImage read expected width
  let actual ← loadImage read actual width
  match expected.diff actual with
  | [] => return (s!"Images match ({expected.size} words)\n", 0)
  | diffs => return (String.join (diffs.map differenceLine), diffs.length)

structure Report where
  text : String
  /-- What the command fails with after all; nothing if it succeeds. -/
  failure : Failure
deriving DecidableEq, Repr

def Command.report (read : Reader) : Command → Except Failure Report
  | encode descriptor bitMap configuration _ strictMissing widths reading => do
    return ⟨← encodeReport read descriptor bitMap configuration strictMissing widths reading, []⟩
  | decode bitMap image _ strict widths => do
    return ⟨← decodeReport read bitMap image strict widths, []⟩
  | fields descriptor configuration widths reading => do
    return ⟨← fieldsReport read descriptor configuration widths reading, []⟩
  | diff expected actual widths => do
    let (text, count) ← diffReport read expected actual widths
    return ⟨text, if count = 0 then [] else [s!"images differ in {count} words"]⟩

/-- The path that the report is written to, if it is not printed. -/
def Command.output? : Command → Option String
  | encode _ _ _ output _ _ _ => output
  | decode _ _ output _ _ => output
  | fields _ _ _ _ => none
  | diff _ _ _ => none

end ChipConfig.CommandLine
