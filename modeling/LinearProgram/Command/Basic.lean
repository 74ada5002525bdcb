import LinearProgram.Command.Arguments
import LinearProgram.Files.Path
import LinearProgram.Settings

/-!
# Commands

A command says what is to be done with LP files.  It is given by its name, followed by
the paths and the options that belong to it; a level of logging may stand anywhere.
-/

namespace LinearProgram

inductive Command where
  /-- Reads a model and says whether it can be written. -/
  | check (file : Path)
  /-- Shows the parts of a document. -/
  | parse (file : Path) (asJson : Bool)
  /-- Writes a model again, on standard output if no path is given. -/
  | format (file : Path) (output : Option Path) (options : WriteOptions)
  /-- Compares the embedded signature with the signature of the body. -/
  | signature (file : Path)
  | compare (expected actual : Path)
deriving DecidableEq

namespace Command

def logLevel : OptionForm :=
  ⟨"log-level", none, true⟩

/-- The options of each command by the name of the command. -/
def forms? : String → Option (List OptionForm)
  | "check" => some [logLevel]
  | "parse" => some [logLevel, ⟨"format", some 'f', true⟩]
  | "fmt" =>
    some
      [logLevel, ⟨"output", some 'o', true⟩, ⟨"width", none, true⟩,
        ⟨"no-signature", none, false⟩, ⟨"generic-names", none, false⟩]
  | "signature" => some [logLevel]
  | "compare" => some [logLevel]
  | _ => none

/-- The name of the command and what follows it, a level of logging before it aside. -/
def name? (leveled : Bool) : List String → Option (String × List String)
  | [] => none
  | argument :: rest =>
    if !looksLikeOption argument then some (argument, rest)
    else if leveled then none
    else match OptionForm.given? [logLevel] argument, rest with
      | some (_, some _), rest => name? true rest
      | some (_, none), _ :: rest => name? true rest
      | _, _ => none

/-- A path that is not empty. -/
def path? (text : String) : Option Path :=
  if text.isEmpty then none else some (.ofText text)

/-- The path of an option that may be missing. -/
def optionalPath? : Option String → Option (Option Path)
  | none => some none
  | some text => (path? text).map some

/-- A number of columns: decimal digits that may follow a plus sign. -/
def columns? (text : String) : Option Nat :=
  let digits := match text.toList with
    | '+' :: digits => digits
    | digits => digits
  if digits.isEmpty || !digits.all Char.isDigit then none
  else WriteOptions.count? (.count (digitsValue digits))

/-- The width that is given as a number of columns, or the default width. -/
def width? : Option String → Option Nat
  | none => some WriteOptions.default.maxLineLength
  | some text => columns? text

/-- The command of a name with its operands and options. -/
def ofParts? (name : String) (arguments : Arguments) : Option Command :=
  match name, arguments.operands with
  | "check", [file] => do return .check (← path? file)
  | "parse", [file] => do
    return .parse (← path? file) (arguments.value? "format" == some "json")
  | "fmt", [file] => do
    let options := {
      WriteOptions.default with
      maxLineLength := ← width? (arguments.value? "width")
      signature := !arguments.has "no-signature"
      declaredNames := !arguments.has "generic-names" }
    return .format (← path? file) (← optionalPath? (arguments.value? "output")) options
  | "signature", [file] => do return .signature (← path? file)
  | "compare", [expected, actual] => do return .compare (← path? expected) (← path? actual)
  | _, _ => none

/-- The command that a command line gives. -/
def ofArguments? (commandLine : List String) : Option Command := do
  let (name, rest) ← name? false commandLine
  let arguments ← Arguments.read? (← forms? name) rest
  if arguments.isDistinct then ofParts? name arguments else none

/-- What is said of a command line that gives no command. -/
def usage : List String :=
  ["Usage:", "  check FILE", "  parse FILE [-f json|pretty]",
    "  fmt FILE [-o OUTPUT] [--width COLUMNS] [--no-signature] [--generic-names]",
    "  signature FILE", "  compare EXPECTED ACTUAL"]

end Command

end LinearProgram
