import ScriptBundle.Bundle
import ScriptBundle.Proofs.Diagnostic.Accounts

/-!
# The check of a program

A checker's command passes a program exactly when its process runs, ends with the status zero and writes
nothing but blank lines. In every other case it has diagnostics, which account for all lines that the
process wrote, and the build ends with them before it reads a source. A number that is too long to be read
leaves no diagnostics, and the build ends with that; and it ends when the user interrupts the process.

* `ProcessOutcome.Passes`, `ProcessOutcome.Readable`: what the process did;
* `Checker.Says`, `Checker.says_of_diagnose`: the diagnostics for it;
* `Checker.run_check`, `Toolchain.run_bundle`: the check alone, and the build up to its end;
* `Toolchain.refuses_unless_passes`: reports, checks and builds.
-/

namespace ScriptBundle

/-! ### Processes -/

namespace Session

/-- The answer of the next process. -/
def answer (s : Session) : ProcessOutcome := s.outcomes.headD (.notStarted .noEntry)

/-- The session after messages were logged. -/
def logged (s : Session) (messages : List Log.Entry) : Session := { s with log := s.log ++ messages }

/-- The session after a process was started, and messages were logged before or behind that. -/
def after (s : Session) (call : ProcessCall) (messages : List Log.Entry) : Session where
  log := s.log ++ messages
  calls := s.calls ++ [call]
  outcomes := s.outcomes.tail

variable (s : Session) (call : ProcessCall) (messages messages' : List Log.Entry)

@[simp] theorem answer_logged : (s.logged messages).answer = s.answer := rfl

@[simp] theorem logged_logged : (s.logged messages).logged messages' = s.logged (messages ++ messages') := by
  simp [logged]

@[simp] theorem after_logged :
    (s.logged messages).after call messages' = s.after call (messages ++ messages') := by
  simp [logged, after]

@[simp] theorem logged_after :
    (s.after call messages).logged messages' = s.after call (messages ++ messages') := by
  simp [logged, after]

end Session

namespace Build

theorem run_log (e : Log.Entry) (s : Session) : (log e).run s = (.ok (), s.logged [e]) := rfl

theorem run_ofExcept {α : Type} (r : Except Failure α) (s : Session) : (ofExcept r).run s = (r, s) := by
  cases r <;> rfl

theorem run_start (call : ProcessCall) (s : Session) :
    (start call).run s = (.ok s.answer, s.after call []) := by
  obtain ⟨log, calls, _ | ⟨outcome, outcomes⟩⟩ := s <;> simp [Session.after] <;> rfl

end Build

namespace ProcessOutcome

/-- The process ran, ended with the status zero, and wrote nothing but blank lines. -/
def Passes : ProcessOutcome → Prop
  | exited status output errors =>
    status = 0 ∧ (∀ l ∈ Text.boundaryLines output, Text.isBlank l) ∧
      ∀ l ∈ Text.boundaryLines errors, Text.isBlank l
  | notStarted _ => False
  | interrupted => False

/-- The lines that the process wrote: those of its output, and then those of its errors. -/
def lines : ProcessOutcome → List Text
  | exited _ output errors => Text.writtenLines output ++ Text.writtenLines errors
  | notStarted _ => []
  | interrupted => []

/-- No number in what the process wrote is too long. -/
def Readable (o : ProcessOutcome) : Prop := ∀ l ∈ o.lines, ¬ Report.IsOverlong l

end ProcessOutcome

/-! ### The diagnostics of a checker -/

namespace Checker

/-- What the checker `name` has to say about an outcome of its process. -/
inductive Says (name : Text) : ProcessOutcome → List Diagnostic → Prop
  /-- What the process wrote, line by line. -/
  | lines {status : Int} {output errors : Text} {ds : List Diagnostic}
      (h : Report.Accounts (ProcessOutcome.exited status output errors).lines ds)
      (hstatus : status = 0 ∨ ds ≠ []) : Says name (.exited status output errors) ds
  /-- The process wrote no line, and ended with an error status. -/
  | status {status : Int} {output errors : Text} (hstatus : status ≠ 0)
      (hlines : (ProcessOutcome.exited status output errors).lines = []) :
      Says name (.exited status output errors)
        [error ("type checker '" ++ name ++ "' exited with status " ++ Text.ofInt status)]
  /-- The process did not start. -/
  | notStarted (e : SystemError) :
      Says name (.notStarted e) [error ("cannot run type checker '" ++ name ++ "': " ++ e.message name)]

section Outcome

variable {name output errors : Text} {o : ProcessOutcome} {ds : List Diagnostic} {f : Failure}

/-- A checker is silent exactly when its process passes. -/
theorem Says.eq_nil_iff (h : Says name o ds) : ds = [] ↔ o.Passes := by
  cases h with
  | lines h hstatus =>
    have hnil := h.eq_nil_iff
    rw [ProcessOutcome.lines, List.append_eq_nil_iff, Text.writtenLines_eq_nil_iff,
      Text.writtenLines_eq_nil_iff, ← Text.forall_isBlank_iff, ← Text.forall_isBlank_iff] at hnil
    constructor
    · intro hds
      exact ⟨hstatus.resolve_right fun hne => hne hds, hnil.1 hds⟩
    · exact fun hpasses => hnil.2 hpasses.2
  | status hstatus hlines =>
    constructor
    · intro hnil
      cases hnil
    · exact fun hpasses => absurd hpasses.1 hstatus
  | notStarted e =>
    constructor
    · intro hnil
      cases hnil
    · exact False.elim

/-- Two texts in one report have the lines of both. -/
theorem writtenLines_reportOf (output errors : Text) :
    Text.writtenLines (reportOf output errors) = Text.writtenLines output ++ Text.writtenLines errors := by
  have hnil : Text.writtenLines [] = [] := rfl
  by_cases houtput : output = []
  · by_cases herrors : errors = []
    · rw [houtput, herrors]
      rfl
    · simp [reportOf, houtput, herrors, Text.join, hnil]
  · by_cases herrors : errors = []
    · simp [reportOf, houtput, herrors, Text.join, hnil]
    · rw [← Text.writtenLines_append_lineFeed]
      simp [reportOf, houtput, herrors, Text.join]
      rfl

/-- What the checker `name` finds, given the outcome of its process. -/
def diagnose (name : Text) : ProcessOutcome → Except Failure (List Diagnostic)
  | .exited status output errors =>
    ((Report.parse (reportOf output errors)).mapError .unreadableReport).map (diagnosticsOf name status)
  | .notStarted e => .ok (notStarted name e)
  | .interrupted => .error .interrupted

theorem says_of_diagnose (h : diagnose name o = .ok ds) : Says name o ds := by
  cases o with
  | notStarted e =>
    cases h
    exact .notStarted e
  | interrupted => cases h
  | exited status output errors =>
    obtain ⟨found, hfound, rfl⟩ := Except.map_eq_ok_iff.1 h
    have haccounts := Report.accounts_of_parse (Except.mapError_eq_ok_iff.1 hfound)
    rw [writtenLines_reportOf] at haccounts
    unfold diagnosticsOf
    split
    · next hsilent =>
      refine .status hsilent.1 (haccounts.eq_nil_iff.1 ?_)
      simpa using hsilent.2
    · next hsilent =>
      refine .lines haccounts ?_
      by_cases hstatus : status = 0
      · exact .inl hstatus
      · refine .inr fun hnil => hsilent ⟨hstatus, ?_⟩
        simp [hnil]

/-- The checker finds something out unless a number is too long or its process is interrupted. -/
theorem exists_diagnose_iff :
    (∃ ds, diagnose name o = .ok ds) ↔ o.Readable ∧ o ≠ .interrupted := by
  cases o with
  | notStarted e =>
    have hreadable : (ProcessOutcome.notStarted e).Readable := by
      intro l hl
      cases hl
    exact ⟨fun _ => ⟨hreadable, by simp⟩, fun _ => ⟨_, rfl⟩⟩
  | interrupted =>
    constructor
    · rintro ⟨ds, h⟩
      cases h
    · exact fun h => absurd rfl h.2
  | exited status output errors =>
    rw [ProcessOutcome.Readable, ProcessOutcome.lines, ← writtenLines_reportOf, ← Report.exists_parse_iff]
    constructor
    · rintro ⟨ds, h⟩
      obtain ⟨found, hfound, -⟩ := Except.map_eq_ok_iff.1 h
      exact ⟨⟨found, Except.mapError_eq_ok_iff.1 hfound⟩, by simp⟩
    · rintro ⟨⟨found, hfound⟩, -⟩
      exact ⟨_, Except.map_eq_ok_iff.2 ⟨found, Except.mapError_eq_ok_iff.2 hfound, rfl⟩⟩

/-- Where a number is too long, it finds that out instead. -/
theorem exists_fault_of_not_readable (h : ¬ o.Readable) :
    ∃ fault, diagnose name o = .error (.unreadableReport fault) := by
  have hnone : ¬ ∃ ds, diagnose name o = .ok ds := fun hds => h (exists_diagnose_iff.1 hds).1
  cases o with
  | notStarted e => exact absurd ⟨_, rfl⟩ hnone
  | interrupted =>
    refine absurd (fun l hl => ?_) h
    cases hl
  | exited status output errors =>
    cases hparse : Report.parse (reportOf output errors) with
    | error fault =>
      refine ⟨fault, ?_⟩
      rw [diagnose, hparse]
      rfl
    | ok found =>
      refine absurd ⟨diagnosticsOf name status found, ?_⟩ hnone
      rw [diagnose, hparse]
      rfl

end Outcome

/-- A check starts the command once, and finds what its outcome tells. -/
theorem run_check (words arguments : List Text) (file : Text) (s : Session) :
    ∃ messages, ((Checker.command words arguments).check file).run s =
      (diagnose ((words ++ arguments ++ [file]).headD []) s.answer,
        s.after { command := words ++ arguments ++ [file] } messages) := by
  rw [check]
  simp only [Build.run_bind, Build.run_log, Build.run_start, Session.answer_logged, Session.after_logged]
  cases s.answer with
  | notStarted e => exact ⟨_, rfl⟩
  | interrupted => exact ⟨_, rfl⟩
  | exited status output errors =>
    simp only [Build.run_bind, Build.run_ofExcept, diagnose]
    cases Report.parse (reportOf output errors) with
    | error fault => exact ⟨_, rfl⟩
    | ok found =>
      simp only [Except.mapError, Build.run_log, Session.logged_after]
      exact ⟨_, rfl⟩

/-- How the stage ends in which a program is checked. -/
def verdict (name : Text) (o : ProcessOutcome) : Except Failure Unit := do
  let ds ← diagnose name o
  if !ds.isEmpty then throw (.typeErrors ds)

end Checker

namespace Toolchain

/-- The stage in which a program is checked. -/
theorem run_checkProgram (words arguments : List Text) (path : Path) (s : Session) :
    ∃ messages, ∀ tools : Toolchain, tools.checker = .command words arguments →
      (tools.checkProgram path).run s =
        (Checker.verdict ((words ++ arguments ++ [path.text]).headD []) s.answer,
          s.after { command := words ++ arguments ++ [path.text] } messages) := by
  obtain ⟨messages, hrun⟩ := Checker.run_check words arguments path.text s
  refine ⟨messages, fun tools hchecker => ?_⟩
  rw [checkProgram, hchecker, Build.run_bind, hrun, Checker.verdict]
  cases Checker.diagnose ((words ++ arguments ++ [path.text]).headD []) s.answer with
  | error f => rfl
  | ok ds => cases ds <;> rfl

/-- What a build logs up to its check. -/
def messagesToCheck (entry : Text) (path : Path) : List Log.Entry :=
  [Log.info ("Starting bundle for entry '" ++ entry ++ "'"), Log.stage "Resolving entry" entry,
    Log.debug ("Entry resolved to " ++ path.text), Log.stage "Type checking" path.text]

/-- A build whose check fails ends there, with no source read: what it does by then depends on the
command, the entry and its file only. -/
theorem run_bundle (words arguments : List Text) (entry : Text) (path : Path) (s : Session) {f : Failure}
    (hf : Checker.verdict ((words ++ arguments ++ [path.text]).headD []) s.answer = .error f) :
    ∃ messages, ∀ tools : Toolchain, tools.checker = .command words arguments →
      tools.resolver.resolveEntry entry = .ok path →
      (tools.bundle entry).run s =
        (.error f, s.after { command := words ++ arguments ++ [path.text] } messages) := by
  obtain ⟨messages, hrun⟩ := run_checkProgram words arguments path (s.logged (messagesToCheck entry path))
  rw [Session.answer_logged, Session.after_logged, hf] at hrun
  refine ⟨messagesToCheck entry path ++ messages, fun tools hchecker hentry => ?_⟩
  simp only [bundle, resolveEntry, hentry, Build.run_bind, Build.run_log, Build.run_ofExcept,
    Session.logged_logged, List.cons_append, List.nil_append]
  rw [← messagesToCheck, hrun tools hchecker]

/-- The check of the program with the entry file `path` fails, and so does every build of an entry that
is resolved to that file. -/
def CheckFails (words arguments : List Text) (path : Path) (s : Session) (f : Failure) : Prop :=
  (∃ messages, ((Checker.command words arguments).check path.text).run s =
    (.error f, s.after { command := words ++ arguments ++ [path.text] } messages)) ∧
  ∀ entry, ∃ messages, ∀ tools : Toolchain,
    tools.checker = .command words arguments → tools.resolver.resolveEntry entry = .ok path →
    (tools.bundle entry).run s =
      (.error f, s.after { command := words ++ arguments ++ [path.text] } messages)

theorem checkFails_of_diagnose {words arguments : List Text} {path : Path} {s : Session} {f : Failure}
    (h : Checker.diagnose ((words ++ arguments ++ [path.text]).headD []) s.answer = .error f) :
    CheckFails words arguments path s f := by
  obtain ⟨messages, hcheck⟩ := Checker.run_check words arguments path.text s
  rw [h] at hcheck
  refine ⟨⟨messages, hcheck⟩, fun entry => run_bundle words arguments entry path s ?_⟩
  rw [Checker.verdict, h]
  rfl

/-- A report accounts for its written lines, and no program passes that its checker does not pass.

Every report whose numbers can be read gives diagnostics that account for its written lines in order, and
none exactly when all its lines are blank. For every outcome of the checker's process, the check gives what
the checker has to say about it, and that is nothing exactly when the process passes; otherwise the build
of an entry that is resolved fails with all of it. A number that is too long is the one exception: there
the check fails, and so does the build. So they do when the user interrupts the process. -/
theorem refuses_unless_passes (words arguments : List Text) (path : Path) (s : Session) :
    (∀ report : Text, (∀ l ∈ Text.writtenLines report, ¬ Report.IsOverlong l) →
      ∃ ds, Report.parse report = .ok ds ∧ Report.Accounts (Text.writtenLines report) ds ∧
        (ds = [] ↔ ∀ l ∈ Text.boundaryLines report, Text.isBlank l)) ∧
    (s.answer.Readable → s.answer ≠ .interrupted →
      ∃ ds, Checker.Says ((words ++ arguments ++ [path.text]).headD []) s.answer ds ∧
        (ds = [] ↔ s.answer.Passes) ∧
        (∃ messages, ((Checker.command words arguments).check path.text).run s =
          (.ok ds, s.after { command := words ++ arguments ++ [path.text] } messages)) ∧
        (¬ s.answer.Passes → ∀ entry, ∃ messages, ∀ tools : Toolchain,
          tools.checker = .command words arguments → tools.resolver.resolveEntry entry = .ok path →
          (tools.bundle entry).run s = (.error (.typeErrors ds),
            s.after { command := words ++ arguments ++ [path.text] } messages))) ∧
    (¬ s.answer.Readable → ∃ fault, CheckFails words arguments path s (.unreadableReport fault)) ∧
    (s.answer = .interrupted → CheckFails words arguments path s .interrupted) := by
  refine ⟨fun report hreport => ?_, fun hreadable hends => ?_, fun hunreadable => ?_,
    fun hinterrupted => ?_⟩
  · obtain ⟨ds, hds⟩ := Report.exists_parse_iff.2 hreport
    exact ⟨ds, hds, Report.accounts_of_parse hds, Report.eq_nil_iff_of_parse hds⟩
  · obtain ⟨ds, hds⟩ := Checker.exists_diagnose_iff.2 ⟨hreadable, hends⟩
    have hsaid := Checker.says_of_diagnose hds
    obtain ⟨messages, hcheck⟩ := Checker.run_check words arguments path.text s
    rw [hds] at hcheck
    refine ⟨ds, hsaid, hsaid.eq_nil_iff, ⟨messages, hcheck⟩, fun hpasses entry => ?_⟩
    refine run_bundle words arguments entry path s ?_
    obtain ⟨d, rest, rfl⟩ := List.exists_cons_of_ne_nil fun hnil => hpasses (hsaid.eq_nil_iff.1 hnil)
    rw [Checker.verdict, hds]
    rfl
  · obtain ⟨fault, hfault⟩ := Checker.exists_fault_of_not_readable hunreadable
    exact ⟨fault, checkFails_of_diagnose hfault⟩
  · refine checkFails_of_diagnose ?_
    rw [hinterrupted]
    rfl

/-- The report of an error whose line has one digit too many. -/
def overlongReport : Text :=
  "a(" ++ (List.replicate TooManyDigits.limit (CodePoint.ofChar '0') ++ "1,1): error TS1: x")

/-- It is not blank, and no diagnostics account for it: the check fails, and not because of the
program. -/
theorem unaccounted_overlongReport :
    Text.isBlank overlongReport = false ∧ (∀ ds, Report.parse overlongReport ≠ .ok ds) ∧
      ∃ f session', ((Checker.command ["tsc"] []).check "a.ts").run
        { outcomes := [.exited 2 overlongReport []] } = (.error f, session') ∧ f.isReported = false := by
  have hparse : ∃ fault, Report.parse overlongReport = .error fault := by
    have hnone : (Report.parse overlongReport).toOption.isNone = true := by decide +kernel
    cases hreport : Report.parse overlongReport with
    | error fault => exact ⟨fault, rfl⟩
    | ok ds =>
      rw [hreport] at hnone
      cases hnone
  obtain ⟨fault, hfault⟩ := hparse
  refine ⟨by decide, fun ds hds => ?_, ?_⟩
  · rw [hfault] at hds
    cases hds
  · have hne : overlongReport ≠ [] := List.cons_ne_nil _ _
    generalize overlongReport = report at hfault hne ⊢
    have hone : Checker.reportOf report [] = report := by simp [Checker.reportOf, hne, Text.join]
    have hanswer : Checker.diagnose "tsc" (.exited 2 report []) = .error (.unreadableReport fault) := by
      rw [Checker.diagnose, hone, hfault]
      rfl
    obtain ⟨messages, hrun⟩ := Checker.run_check ["tsc"] [] "a.ts" { outcomes := [.exited 2 report []] }
    exact ⟨.unreadableReport fault, _, hrun.trans (Prod.ext hanswer rfl), rfl⟩

/-- A program of one file, with a checker. -/
def checkedProgram : Toolchain where
  resolver :=
    { workspace :=
        { tree := FileTree.empty.insertFile ["p", "a.ts"] (.file "let n = ''".toUTF8.toList)
          cwd := ⟨.top, ["p"]⟩ }
      settings := {}
      directory := ⟨.top, ["p"]⟩ }
  transpiler := .lowering
  checker := .command ["tsc"] []

/-- Its checker succeeds and reports an error, a line that goes on with it, and something else. -/
def reportingSession : Session where
  outcomes := [.exited 0 "a.ts(1,5): error TS2322: no\r\n  since\r" "\n \nwatch\n"]

/-- The numbers of that report can be read, and its program does not pass. -/
theorem refuses_reportingSession :
    reportingSession.answer.Readable ∧ reportingSession.answer ≠ .interrupted ∧
      ¬ reportingSession.answer.Passes ∧
      checkedProgram.resolver.resolveEntry "a" = .ok ⟨.top, ["p", "a.ts"]⟩ ∧
      ∃ ds session', Checker.Says "tsc" reportingSession.answer ds ∧ ds ≠ [] ∧
        (checkedProgram.bundle "a").run reportingSession = (.error (.typeErrors ds), session') := by
  obtain ⟨hreadable, hends⟩ :
      reportingSession.answer.Readable ∧ reportingSession.answer ≠ .interrupted := by
    obtain ⟨ds, hds, -⟩ := Except.exists_of_any_toOption (p := fun _ => true)
      (x := Checker.diagnose "tsc" reportingSession.answer) (by decide +kernel)
    exact Checker.exists_diagnose_iff.1 ⟨ds, hds⟩
  have hpasses : ¬ reportingSession.answer.Passes := by
    rintro ⟨-, hblank, -⟩
    rw [Text.forall_isBlank_iff] at hblank
    exact absurd hblank (by decide)
  have hentry : checkedProgram.resolver.resolveEntry "a" = .ok ⟨.top, ["p", "a.ts"]⟩ := by
    obtain ⟨path, hok, hpath⟩ := Except.exists_of_any_toOption (p := (· = ⟨.top, ["p", "a.ts"]⟩))
      (x := checkedProgram.resolver.resolveEntry "a") (by decide +kernel)
    rw [hok, of_decide_eq_true hpath]
  obtain ⟨-, hsaid, -⟩ := refuses_unless_passes ["tsc"] [] ⟨.top, ["p", "a.ts"]⟩ reportingSession
  obtain ⟨ds, hsaid, hnil, -, hbundle⟩ := hsaid hreadable hends
  obtain ⟨messages, hrun⟩ := hbundle hpasses "a"
  exact ⟨hreadable, hends, hpasses, hentry, ds, _, hsaid, fun h => hpasses (hnil.1 h),
    hrun checkedProgram rfl hentry⟩

end Toolchain

end ScriptBundle
