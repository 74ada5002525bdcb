import LinearProgram.Command.Plan

/-!
# The program

Runs a command line on the files of the system: reads what the command needs, makes its
deposit, prints its report and returns its status.
-/

namespace LinearProgram

namespace Program

/-- The cause of a failed operation on files, whose number may have either sign. -/
def fileError (error : IO.Error) : FileError :=
  let (number, details) := match error with
    | .alreadyExists _ number details => (number, details)
    | .otherError number details => (number, details)
    | .resourceBusy number details => (number, details)
    | .resourceVanished number details => (number, details)
    | .unsupportedOperation number details => (number, details)
    | .hardwareFault number details => (number, details)
    | .unsatisfiedConstraints number details => (number, details)
    | .illegalOperation number details => (number, details)
    | .protocolError number details => (number, details)
    | .timeExpired number details => (number, details)
    | .interrupted _ number details => (number, details)
    | .noFileOrDirectory _ number details => (number, details)
    | .invalidArgument _ number details => (number, details)
    | .permissionDenied _ number details => (number, details)
    | .resourceExhausted _ number details => (number, details)
    | .inappropriateType _ number details => (number, details)
    | .noSuchThing _ number details => (number, details)
    | .unexpectedEof => (0, "unexpected end of file")
    | .userError details => (0, details)
  .ofNumber number.toInt32.toInt.natAbs details

/-- An operation on files with its failure as a value. -/
def attempt (operation : IO α) : IO (Except FileError α) :=
  operation.toBaseIO.map (·.mapError fileError)

/-- The text of a file. -/
def readText (path : Path) : IO (Except FileError String) := do
  match ← attempt (IO.FS.readBinFile path.text) with
  | .error error => return .error error
  | .ok content =>
    match String.fromUTF8? content with
    | some text => return .ok text
    | none => return .error .notText

/-- The entry by which a directory holds itself. -/
def selfEntry (path : Path) : IO.FS.DirEntry :=
  ⟨path.text, "."⟩

/-- The files and directories of the system. -/
def access : FileAccess IO where
  isDirectory path := (selfEntry path).path.isDir
  makeDirectory path := attempt (IO.FS.createDir path.text)
  writeFile path text := attempt (IO.FS.writeFile path.text text)

/-- What reading each of some files leads to. -/
def readAll (paths : List Path) : IO (List (Path × Except FileError String)) :=
  paths.mapM fun path => return (path, ← readText path)

/-- Runs a command and returns its report. -/
def run (command : Command) : IO Report := do
  let contents ← readAll command.sources
  let read := fun path => (contents.lookup path).getD (.error .notFound)
  (command.outcome read).complete access

end Program

end LinearProgram

open LinearProgram in
/-- Prints the report of a command line and returns its status. -/
def main (commandLine : List String) : IO UInt32 := do
  let report ← match Command.start commandLine (← IO.getEnv Command.logFormatVariable) with
    | .error report => pure report
    | .ok command => Program.run command
  IO.print report.output
  IO.eprint report.errors
  return report.status.toUInt32
