import ChipConfig.CommandLine.Directory

/-!
# The program

Reads the files of a command, prints or writes its report, and tells on the error output why it
failed.
-/

namespace ChipConfig.CommandLine

/-- What is shown instead of running a command. -/
def usageText : String :=
  String.intercalate "\n"
    ["Register field and EEPROM image tool",
      "",
      "Usage:",
      "  encode -d DESCRIPTOR -b BITMAP [-o OUTPUT] [--strict-missing] CONFIG",
      "  decode -b BITMAP [-o OUTPUT] [--strict] IMAGE",
      "  fields -d DESCRIPTOR CONFIG",
      "  diff EXPECTED ACTUAL",
      "",
      "Widths: --register-width BITS, --word-width BITS (16 if not given)",
      "Configurations: --reject-duplicates, --decimal-values",
      "Always: -v, -h\n"]

def systemText : IO.Error → String
  | .noFileOrDirectory _ _ _ => PathError.missing.message
  | .inappropriateType _ code _ =>
    if code = 21 || code = -21 then
      PathError.isADirectory.message
    else
      PathError.notADirectory.message
  | .invalidArgument _ code details =>
    if code = 36 || code = -36 then PathError.tooLong.message else s!"{details} (os error {code})"
  | .permissionDenied _ code details => s!"{details} (os error {code})"
  | .userError _ => "stream did not contain valid UTF-8"
  | error => toString error

def readPath (path : String) : IO (Except String String) := do
  try
    return .ok (← IO.FS.readFile path)
  catch error =>
    return .error (systemText error)

def printFailure : Failure → IO Unit
  | [] => return
  | reason :: causes => do
    IO.eprintln s!"Error: {reason}"
    match causes with
    | [] => return
    | [cause] => IO.eprintln s!"\nCaused by:\n    {cause}"
    | _ =>
      IO.eprintln "\nCaused by:"
      for (cause, index) in causes.zipIdx do
        IO.eprintln s!"    {index}: {cause}"

/-- Prints the report of a command, or writes it to its file. -/
def deliver (command : Command) (text : String) : IO Failure := do
  match command.output? with
  | none =>
    IO.print text
    return []
  | some path =>
    try
      IO.FS.writeFile path text
      return []
    catch error =>
      return [s!"writing {path}", systemText error]

def runCommand (command : Command) : IO Failure := do
  let mut texts : List (String × Except String String) := []
  for path in command.inputs do
    texts := (path, ← readPath path) :: texts
  let read : Reader := fun path ↦ (texts.lookup path).getD (.error "not read")
  match command.report read with
  | .error failure => return failure
  | .ok report => return (← deliver command report.text) ++ report.failure

end ChipConfig.CommandLine

open ChipConfig.CommandLine in
/-- Runs the command that the arguments ask for.  The exit code tells success, a failed command and
wrong usage apart. -/
def main (arguments : List String) : IO UInt32 := do
  match Command.ofArguments arguments with
  | .error .answered =>
    IO.print usageText
    return 0
  | .error .misused =>
    IO.eprint usageText
    return 2
  | .ok command =>
    let failure ← runCommand command
    printFailure failure
    return if failure.isEmpty then 0 else 1
