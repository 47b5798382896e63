import ChipConfig.CommandLine.Report
import ChipConfig.SortedMap

/-!
# Running a command in a directory

A directory here holds files and no further directories.  Above it there are directories only, and
nothing in them is known by name.  Running a command on arguments yields what is printed, why it
fails if it does, and the directory afterwards.
-/

namespace ChipConfig.CommandLine

/-- What the system says about a path that it cannot use. -/
inductive PathError where
  | missing
  /-- A file is used as if it held others. -/
  | notADirectory
  /-- A directory is used as if it were a file. -/
  | isADirectory
  | tooLong
  | nulCharacter
deriving DecidableEq, Repr

def PathError.message : PathError → String
  | missing => "No such file or directory (os error 2)"
  | notADirectory => "Not a directory (os error 20)"
  | isADirectory => "Is a directory (os error 21)"
  | tooLong => "File name too long (os error 36)"
  | nulCharacter => "file name contained an unexpected NUL byte"

structure Directory where
  files : SortedMap String String
deriving DecidableEq

inductive Place where
  /-- To a directory: this one, or one above it. -/
  | directory
  /-- To a name in this directory, or in one above it; the path may end in slashes. -/
  | named (name : String) (above slashed : Bool)
deriving DecidableEq, Repr

def maxNameBytes : Nat := 255

def maxPathBytes : Nat := 4095

namespace Directory

def lookup (directory : Directory) (above : Bool) (name : String) :
    Except PathError (Option String) :=
  if maxNameBytes < name.utf8ByteSize then .error .tooLong
  else if above then .ok none
  else .ok (directory.files.get? name)

/-- Follows the pieces of a path.  Empty pieces and single dots lead nowhere, two dots lead up, and
a name that more than slashes follow would have to be a directory. -/
def follow (directory : Directory) (above : Bool) : List (List Char) → Except PathError Place
  | [] => .ok .directory
  | piece :: rest =>
    if piece.isEmpty || piece = ['.'] then
      directory.follow above rest
    else if piece = ['.', '.'] then
      directory.follow true rest
    else if rest.all List.isEmpty then
      .ok (.named (String.ofList piece) above (!rest.isEmpty))
    else
      match directory.lookup above (String.ofList piece) with
      | .error error => .error error
      | .ok (some _) => .error .notADirectory
      | .ok none => .error .missing

/-- Where a path leads.  One that starts with a slash starts above the directory. -/
def place (directory : Directory) (path : String) : Except PathError Place :=
  let cs := path.toList
  if cs.contains '\x00' then .error .nulCharacter
  else if cs.isEmpty then .error .missing
  else if maxPathBytes < path.utf8ByteSize then .error .tooLong
  else directory.follow (cs.head? = some '/') (Text.pieces (· = '/') cs)

def read (directory : Directory) (path : String) : Except PathError String := do
  match ← directory.place path with
  | .directory => throw .isADirectory
  | .named name above slashed =>
    match ← directory.lookup above name with
    | some text => if slashed then throw .notADirectory else return text
    | none => throw .missing

/-- Makes or replaces a file.  A file made above the directory leaves the directory as it is. -/
def write (directory : Directory) (path text : String) : Except PathError Directory := do
  match ← directory.place path with
  | .directory => throw .isADirectory
  | .named name above slashed =>
    if slashed then
      throw .isADirectory
    let _ ← directory.lookup above name
    return if above then directory else ⟨directory.files.insert name text⟩

def reader (directory : Directory) : Reader :=
  fun path ↦ (directory.read path).mapError PathError.message

end Directory

structure Outcome where
  printed : String
  failure : Failure
  directory : Directory
deriving DecidableEq

/-- Runs a command.  A report is written or printed before its own failure counts. -/
def Command.runIn (directory : Directory) (command : Command) : Outcome :=
  match command.report directory.reader with
  | .error failure => ⟨"", failure, directory⟩
  | .ok report =>
    match command.output? with
    | none => ⟨report.text, report.failure, directory⟩
    | some path =>
      match directory.write path report.text with
      | .ok directory => ⟨"", report.failure, directory⟩
      | .error error => ⟨"", [s!"writing {path}", error.message], directory⟩

def Outcome.exitCode (outcome : Outcome) : Nat :=
  if outcome.failure.isEmpty then 0 else 1

def Stop.exitCode : Stop → Nat
  | answered => 0
  | misused => 2

end ChipConfig.CommandLine
