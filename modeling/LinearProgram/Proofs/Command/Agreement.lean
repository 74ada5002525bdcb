import LinearProgram.Command.Run
import LinearProgram.Proofs.Files.Deposit
import LinearProgram.Proofs.Model.Writing

/-!
# Checking and formatting

Whether a file can be checked and whether it can be formatted are the same question: a
model that was read from a file has a text unless it has problems, whatever the options of
the command line.  A file that is not accepted is reported before anything is deposited,
and a deposit leaves what would have been printed.  The
main statement is `Workspace.check_agrees_with_format`.
-/

namespace LinearProgram

namespace Command

variable {commandLine : List String} {name : String} {arguments : Arguments}
  {file : Path} {output : Option Path} {options : WriteOptions}
  {content : Except FileError String} {model : Model}

/-! ## Files that are accepted -/

/-- Whether what was read gives a model and the model has no problems. -/
def Accepts (content : Except FileError String) : Prop :=
  ∃ source model, content = .ok source ∧ Model.read source = .ok model ∧ model.issues = []

theorem load_eq_ok_iff :
    Model.load file content = .ok model ↔
      ∃ source, content = .ok source ∧ Model.read source = .ok model := by
  cases content with
  | error error => simp [Model.load]
  | ok source =>
      cases hread : Model.read source <;> simp [Model.load, Except.mapError, hread]

theorem accepts_iff (file : Path) :
    Accepts content ↔ ∃ model, Model.load file content = .ok model ∧ model.issues = [] := by
  constructor
  · rintro ⟨source, model, hcontent, hread, hissues⟩
    exact ⟨model, load_eq_ok_iff.mpr ⟨source, hcontent, hread⟩, hissues⟩
  · rintro ⟨model, hload, hissues⟩
    obtain ⟨source, hcontent, hread⟩ := load_eq_ok_iff.mp hload
    exact ⟨source, model, hcontent, hread, hissues⟩

theorem wellFormed_of_load (h : Model.load file content = .ok model) : model.WellFormed := by
  obtain ⟨source, -, hread⟩ := load_eq_ok_iff.mp h
  exact (Model.reachable_read hread).wellFormed

theorem status_checkReport_eq_zero_iff :
    (checkReport file content).status = 0 ↔ Accepts content := by
  rw [accepts_iff file, checkReport]
  cases Model.load file content with
  | error error => simp [Report.failure]
  | ok model =>
      dsimp only
      rw [Model.ensureValid]
      cases hissues : model.issues <;> simp [Report.failure, Report.success, hissues]

/-- The text of an accepted file is the same whether it is printed or deposited. -/
theorem exists_formatOutcome_eq (h : Accepts content) :
    ∃ text, formatOutcome file none options content = .report ⟨0, text, ""⟩ ∧
      ∀ path, formatOutcome file (some path) options content = .deposit path text := by
  obtain ⟨model, hload, hissues⟩ := (accepts_iff file).mp h
  obtain ⟨text, hrender⟩ := (wellFormed_of_load hload).exists_render hissues options
  refine ⟨text, ?_, fun path => ?_⟩ <;> rw [formatOutcome, hload] <;> dsimp only <;> rw [hrender]

/-- A file that is not accepted is reported in the same way whatever the output is. -/
theorem exists_formatOutcome_eq_failure (h : ¬Accepts content) :
    ∃ texts, ∀ output,
      formatOutcome file output options content = .report (.failure texts) := by
  cases hload : Model.load file content with
  | error error =>
      refine ⟨["Error: " ++ error.message], fun output => ?_⟩
      rw [formatOutcome, hload]
  | ok model =>
      have hissues : model.issues ≠ [] := fun hnil =>
        h ((accepts_iff file).mpr ⟨model, hload, hnil⟩)
      let error : WriteError := .invalid (.modelInvalid model.issues)
      refine ⟨["Write error: " ++ error.message], fun output => ?_⟩
      rw [formatOutcome, hload]
      dsimp only
      rw [Model.render_eq_invalid hissues]
      rfl

end Command

namespace Workspace

variable {workspace : Workspace} {file path : Path} {options : WriteOptions}
  {commandLine checking printing depositing : List String} {command : Command}

/-- Whether a file can be read, gives a model, and the model has no problems. -/
def Accepts (workspace : Workspace) (file : Path) : Prop :=
  Command.Accepts (workspace.read file)

/-- Whether the environment asks for a layout of log lines that is known. -/
def LogFormatKnown (logFormat : Option String) : Prop :=
  Command.isLogFormat (logFormat.getD "pretty") = true

theorem invoke_eq_run (h : Command.ofArguments? commandLine = some command)
    {logFormat : Option String} (hlog : LogFormatKnown logFormat) :
    workspace.invoke commandLine logFormat = workspace.run command := by
  rw [LogFormatKnown] at hlog
  rw [invoke, Command.start, h]
  simp only [hlog, if_true]

theorem status_invoke_of_not_logFormatKnown
    (h : Command.ofArguments? commandLine = some command)
    {logFormat : Option String} (hlog : ¬LogFormatKnown logFormat) :
    (workspace.invoke commandLine logFormat).1.status = 2 := by
  rw [LogFormatKnown] at hlog
  rw [invoke, Command.start, h]
  simp only [hlog]
  rfl

/-- A workspace after a command that only reports. -/
theorem run_eq_of_report {report : Report} (h : command.outcome workspace.read = .report report) :
    workspace.run command = (report, workspace) := by
  rw [run, h]
  rfl

theorem status_run_check_eq_zero_iff :
    (workspace.run (.check file)).1.status = 0 ↔ workspace.Accepts file :=
  Command.status_checkReport_eq_zero_iff

/-- A deposit is made where printing would have shown the text. -/
theorem exists_run_format_eq (h : workspace.Accepts file) :
    ∃ text, workspace.run (.format file none options) = (⟨0, text, ""⟩, workspace) ∧
      ∀ path, workspace.run (.format file (some path) options) =
        ((Outcome.deposit path text).complete access).run workspace := by
  obtain ⟨text, hprint, hdeposit⟩ := @Command.exists_formatOutcome_eq file options _ h
  refine ⟨text, run_eq_of_report hprint, fun path => ?_⟩
  rw [run, Command.outcome, hdeposit]

theorem exists_run_format_eq_failure (h : ¬workspace.Accepts file) :
    ∃ texts, ∀ output,
      workspace.run (.format file output options) = (.failure texts, workspace) := by
  obtain ⟨texts, htexts⟩ := @Command.exists_formatOutcome_eq_failure file options _ h
  exact ⟨texts, fun output => run_eq_of_report (htexts output)⟩

/-- Formatting without a path only prints, and it prints exactly what is accepted. -/
theorem status_run_format_eq_zero_iff :
    (workspace.run (.format file none options)).1.status = 0 ↔ workspace.Accepts file := by
  constructor
  · intro hstatus
    by_contra hnot
    obtain ⟨texts, htexts⟩ := exists_run_format_eq_failure hnot
    rw [htexts] at hstatus
    exact nomatch hstatus
  · intro haccepts
    obtain ⟨text, hprint, -⟩ := @exists_run_format_eq _ _ options haccepts
    rw [hprint]

/-- A deposit that is reported as a success is silent and has been made. -/
theorem deposit_of_complete {text : String}
    (h : (((Outcome.deposit path text).complete access).run workspace).1.status = 0) :
    ∃ after,
      ((Outcome.deposit path text).complete access).run workspace = (.success [], after) ∧
      (access.deposit path text).run workspace = (.ok (), after) := by
  rw [Outcome.complete, StateT.run_bind] at h ⊢
  generalize (access.deposit path text).run workspace = deposited at h ⊢
  obtain ⟨result, after⟩ := deposited
  cases result with
  | ok done => exact ⟨after, rfl, rfl⟩
  | error error => exact nomatch h

/--
Checking a file and printing it formatted succeed for the same files, whatever options of
formatting are given.  A file that cannot be read, gives no model or has a model with
problems ends with status one and nothing on the ordinary channel, and no file or directory
is made or changed then, wherever the formatted text was to be deposited.  A deposit that
succeeds is silent and leaves, at the place of its path, the bytes that printing with the
same options shows; all other files stay as they are.
-/
theorem check_agrees_with_format (workspace : Workspace) (logFormat : Option String)
    (hcheck : Command.ofArguments? checking = some (.check file))
    (hprint : Command.ofArguments? printing = some (.format file none options))
    (hdeposit : Command.ofArguments? depositing = some (.format file (some path) options)) :
    ((workspace.invoke checking logFormat).1.status = 0 ↔
        (workspace.invoke printing logFormat).1.status = 0) ∧
      (¬workspace.Accepts file → LogFormatKnown logFormat →
        ∀ commandLine ∈ [printing, depositing],
          (workspace.invoke commandLine logFormat).1.status = 1 ∧
            (workspace.invoke commandLine logFormat).1.output = "" ∧
            (workspace.invoke commandLine logFormat).2 = workspace) ∧
      ((workspace.invoke depositing logFormat).1.status = 0 →
        (workspace.invoke depositing logFormat).1.output = "" ∧
          (workspace.invoke printing logFormat).1.status = 0 ∧
          ∃ place, (workspace.invoke depositing logFormat).2.placeOf path = .ok place ∧
            (workspace.invoke depositing logFormat).2.entryAt? place =
              some (.file (workspace.invoke printing logFormat).1.output.toUTF8) ∧
            ∀ other, other ≠ place → ∀ content,
              (workspace.invoke depositing logFormat).2.entryAt? other = some (.file content) ↔
                workspace.entryAt? other = some (.file content)) := by
  -- With an unknown layout of log lines no command starts, so all three are refused alike.
  by_cases hlog : LogFormatKnown logFormat
  · rw [invoke_eq_run hcheck hlog, invoke_eq_run hprint hlog, invoke_eq_run hdeposit hlog]
    refine ⟨?_, fun hnot _ => ?_, fun hstatus => ?_⟩
    · rw [status_run_check_eq_zero_iff, status_run_format_eq_zero_iff]
    · obtain ⟨texts, htexts⟩ := exists_run_format_eq_failure hnot
      rw [List.forall_mem_cons, List.forall_mem_singleton, invoke_eq_run hprint hlog,
        invoke_eq_run hdeposit hlog, htexts, htexts]
      exact ⟨⟨rfl, rfl, rfl⟩, rfl, rfl, rfl⟩
    · have haccepts : workspace.Accepts file := by
        by_contra hnot
        obtain ⟨texts, htexts⟩ := exists_run_format_eq_failure hnot
        rw [htexts] at hstatus
        exact nomatch hstatus
      obtain ⟨text, hprinted, hdeposited⟩ := @exists_run_format_eq _ _ options haccepts
      rw [hdeposited] at hstatus ⊢
      obtain ⟨after, hcomplete, hmade⟩ := deposit_of_complete hstatus
      rw [hprinted, hcomplete]
      exact ⟨rfl, rfl, exists_place_of_deposit hmade⟩
  · have hrefused {commandLine : List String} {command : Command}
        (h : Command.ofArguments? commandLine = some command) :=
      @status_invoke_of_not_logFormatKnown workspace _ _ h _ hlog
    refine ⟨?_, fun _ hknown => absurd hknown hlog, fun hstatus => ?_⟩
    · rw [hrefused hcheck, hrefused hprint]
    · rw [hrefused hdeposit] at hstatus
      exact nomatch hstatus

/-- A workspace with a file that is accepted and one whose constraint has no terms. -/
def pantry : Workspace where
  home := ["pantry"]
  entries := [
    (["pantry"], .directory),
    (["pantry", "diet.lp"], .file "Minimize\n rice\nSubject To\n rice >= 2\nEnd\n".toUTF8),
    (["pantry", "empty.lp"], .file "Minimize\n rice\nSubject To\n 0 >= 2\nEnd\n".toUTF8)]

def unsigned : WriteOptions :=
  { WriteOptions.default with signature := false }

def checkLine (file : String) : List String :=
  ["check", file]

/-- A command line that prints a file without signature, before further arguments. -/
def printLine (file : String) (further : List String) : List String :=
  ["fmt", file, "--no-signature"] ++ further

theorem check_agrees_with_format_pantry :
    (pantry.invoke (checkLine "diet.lp") none).1.status = 0 ∧
      (∃ place, (pantry.invoke (printLine "diet.lp" ["-o", "plans/diet.lp"]) none).2.placeOf
          (.ofText "plans/diet.lp") = .ok place ∧
        (pantry.invoke (printLine "diet.lp" ["-o", "plans/diet.lp"]) none).2.entryAt? place =
          some (.file (pantry.invoke (printLine "diet.lp" []) none).1.output.toUTF8)) ∧
      (pantry.invoke (checkLine "empty.lp") none).1.status ≠ 0 ∧
      (pantry.invoke (printLine "empty.lp" ["-o", "empty.lp"]) none).2 = pantry := by
  have hdeposited : (pantry.invoke (printLine "diet.lp" ["-o", "plans/diet.lp"]) none).1.status =
      0 := by
    decide +kernel
  obtain ⟨hagree, -, hmade⟩ :=
    @check_agrees_with_format (.ofText "diet.lp") (.ofText "plans/diet.lp") unsigned
      (checkLine "diet.lp") (printLine "diet.lp" [])
      (printLine "diet.lp" ["-o", "plans/diet.lp"]) pantry none
      (by decide +kernel) (by decide +kernel) (by decide +kernel)
  obtain ⟨-, hprinted, place, hplace, hentry, -⟩ := hmade hdeposited
  have hcheck :
      Command.ofArguments? (checkLine "empty.lp") = some (.check (.ofText "empty.lp")) := by
    decide +kernel
  obtain ⟨-, huntouched, -⟩ :=
    @check_agrees_with_format (.ofText "empty.lp") (.ofText "empty.lp") unsigned
      (checkLine "empty.lp") (printLine "empty.lp" [])
      (printLine "empty.lp" ["-o", "empty.lp"]) pantry none
      hcheck (by decide +kernel) (by decide +kernel)
  have hknown : LogFormatKnown none := rfl
  have hrefused : (pantry.invoke (checkLine "empty.lp") none).1.status ≠ 0 := by decide +kernel
  have hnot : ¬pantry.Accepts (.ofText "empty.lp") := by
    rw [invoke_eq_run hcheck hknown] at hrefused
    exact fun haccepts => hrefused (status_run_check_eq_zero_iff.mpr haccepts)
  have hsame := huntouched hnot hknown (printLine "empty.lp" ["-o", "empty.lp"])
    (by decide +kernel)
  exact ⟨hagree.mpr hprinted, ⟨place, hplace, hentry⟩, hrefused, hsame.2.2⟩

end Workspace

end LinearProgram
