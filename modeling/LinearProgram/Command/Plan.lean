import LinearProgram.Command.Basic
import LinearProgram.Document.Outline
import LinearProgram.Files.Access
import LinearProgram.Model.RoundTrip

/-!
# What commands do

A command reads files and ends in a report, a status with the text for both output
channels.  The only command with another effect is one that deposits a written model in
a file, and it does so only after the whole text is known.
-/

namespace LinearProgram

/-- How a command has ended. -/
structure Report where
  status : Nat
  output : String
  errors : String
deriving DecidableEq

namespace Report

/-- The lines of a text, each with its end. -/
def lines (texts : List String) : String :=
  String.join (texts.map (· ++ "\n"))

def success (texts : List String) : Report :=
  ⟨0, lines texts, ""⟩

/-- A finding that is said on the ordinary channel although the status is not zero. -/
def finding (texts : List String) : Report :=
  ⟨1, lines texts, ""⟩

def failure (texts : List String) : Report :=
  ⟨1, "", lines texts⟩

/-- A command that could not be started. -/
def refusal (texts : List String) : Report :=
  ⟨2, "", lines texts⟩

end Report

/-- What is left to do once the files of a command are read. -/
inductive Outcome where
  | report (report : Report)
  | deposit (path : Path) (text : String)
deriving DecidableEq

/-- Why a file gives no model. -/
inductive LoadError where
  | file (path : Path) (error : FileError)
  | content (error : CompileError)

def ioErrorText (details : String) : String :=
  "IO error: " ++ details

def LoadError.message : LoadError → String
  | file path error => ioErrorText (path.text ++ ": " ++ error.message)
  | content error => error.message

/-- The model that what was read from a path denotes. -/
def Model.load (path : Path) (content : Except FileError String) : Except LoadError Model :=
  match content with
  | .error error => .error (.file path error)
  | .ok source => (Model.read source).mapError .content

namespace Command

/-- What is said of a model that can be written. -/
def summary (file : Path) (model : Model) : List String :=
  ["✓ " ++ file.text ++ " is valid",
    "  " ++ toString (model.countKind .continuous) ++ " continuous variables",
    "  " ++ toString (model.countKind .integer) ++ " integer variables",
    "  " ++ toString (model.countKind .binary) ++ " binary variables",
    "  " ++ toString model.constraints.length ++ " constraints",
    "  objective: " ++ (model.objective.map fun objective => objective.sense.text).getD "none"]

/-- What is said of a file with the given problems. -/
def problems (file : Path) (messages : List String) : List String :=
  ("✗ " ++ file.text ++ " has errors:") :: messages.map ("  " ++ ·)

def checkReport (file : Path) (content : Except FileError String) : Report :=
  match Model.load file content with
  | .error error => .failure (problems file [error.message])
  | .ok model =>
    match model.ensureValid with
    | .error error => .failure (problems file (error.issues.map ModelError.message))
    | .ok () => .success (summary file model)

/-- A report on the text of a file, or on the reason why it cannot be read. -/
def onText (file : Path) (content : Except FileError String) (report : String → Report) :
    Report :=
  match content with
  | .error error => .failure ["Error reading file " ++ file.text ++ ": " ++ error.message]
  | .ok source => report source

def parseReport (asJson : Bool) (source : String) : Report :=
  match Document.parse source with
  | .error error => .failure ["Parse error: " ++ error.message]
  | .ok document =>
    .success [if asJson then document.outline.json else document.outline.listing]

def writeFailure (message : String) : Report :=
  .failure ["Write error: " ++ message]

/--
The written model on the ordinary channel, or the text to be deposited.

The indentation is three columns on every command line, so the text is a small multiple
of the file it has come from, and is taken however long it is.
-/
def formatOutcome (file : Path) (output : Option Path) (options : WriteOptions)
    (content : Except FileError String) : Outcome :=
  match Model.load file content with
  | .error error => .report (.failure ["Error: " ++ error.message])
  | .ok model =>
    match model.render options, output with
    | .error error, _ => .report (writeFailure error.message)
    | .ok text, none => .report ⟨0, text, ""⟩
    | .ok text, some path => .deposit path text

def signatureReport (file : Path) (source : String) : Report :=
  match SignatureCheck.ofText source with
  | .matching actual =>
    .success ["✓ " ++ file.text ++ " signature " ++ actual.text ++ " matches"]
  | .mismatch embedded actual =>
    .finding
      ["✗ " ++ file.text ++ " signature mismatch", "  embedded: " ++ embedded,
        "  actual:   " ++ actual.text]
  | .missing actual =>
    .success [file.text ++ " has no signature", "  actual: " ++ actual.text]

/-- The lines that show a difference. -/
def differenceLines : LineDifference → List String
  | .line number expected actual =>
    ["  line " ++ toString number ++ ":", "  - " ++ expected, "  + " ++ actual]
  | .length expected actual => ["  " ++ (LineDifference.length expected actual).message]

def compareReport (expected actual : Path) (want got : String) : Report :=
  match difference? want got with
  | none => .success ["✓ " ++ actual.text ++ " matches " ++ expected.text]
  | some difference =>
    .finding
      (("✗ " ++ actual.text ++ " differs from " ++ expected.text) :: differenceLines difference)

/-- The files that a command reads, in order. -/
def sources : Command → List Path
  | check file => [file]
  | parse file _ => [file]
  | format file _ _ => [file]
  | signature file => [file]
  | compare expected actual => [expected, actual]

/-- The outcome of a command, given what reading a path leads to. -/
def outcome (read : Path → Except FileError String) : Command → Outcome
  | check file => .report (checkReport file (read file))
  | parse file asJson => .report (onText file (read file) (parseReport asJson))
  | format file output options => formatOutcome file output options (read file)
  | signature file => .report (onText file (read file) (signatureReport file))
  | compare expected actual =>
    .report (onText expected (read expected) fun want =>
      onText actual (read actual) (compareReport expected actual want))

/-- The variable of the environment that says how log lines are laid out. -/
def logFormatVariable : String :=
  "LPFRAME_LOG_FORMAT"

def isLogFormat (text : String) : Bool :=
  ["json", "pretty"].contains (asciiLower text)

/-- The command of a command line, unless it or the layout of log lines is not known. -/
def start (commandLine : List String) (logFormat : Option String) : Except Report Command :=
  match ofArguments? commandLine with
  | none => .error (.refusal usage)
  | some command =>
    if isLogFormat (logFormat.getD "pretty") then .ok command
    else .error
      (.refusal ["Error: Invalid " ++ logFormatVariable ++ " (expected 'json' or 'pretty')"])

end Command

/-- The report at the end of a command, after a deposit has been made if it is one. -/
def Outcome.complete [Monad m] (access : FileAccess m) : Outcome → m Report
  | .report result => pure result
  | .deposit path text => do
    match ← access.deposit path text with
    | .ok () => return .success []
    | .error error => return Command.writeFailure (ioErrorText error.message)

end LinearProgram
