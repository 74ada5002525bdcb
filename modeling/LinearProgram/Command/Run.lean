import LinearProgram.Command.Plan
import LinearProgram.Files.Workspace

/-!
# Commands in a workspace

Running a command in a workspace gives a report and the workspace that it leaves.
-/

namespace LinearProgram

namespace Workspace

/-- A command with its files read from the workspace and its deposit made there. -/
def run (workspace : Workspace) (command : Command) : Report × Workspace :=
  ((command.outcome workspace.read).complete access).run workspace

/-- A command line, with the layout of log lines that the environment asks for. -/
def invoke (workspace : Workspace) (commandLine : List String) (logFormat : Option String) :
    Report × Workspace :=
  match Command.start commandLine logFormat with
  | .error report => (report, workspace)
  | .ok command => workspace.run command

end Workspace

end LinearProgram
