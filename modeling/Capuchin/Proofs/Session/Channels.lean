import Capuchin.Proofs.Session.Logged
import Capuchin.Proofs.Session.Traceless
import Mathlib

namespace Capuchin

def Display.Asks (display : Display) (value : Value) : Prop :=
  display = .every ∨ display = .nonNull ∧ value ≠ .null

/-- What the standard output is to hold of a value: a line with its display, or nothing. -/
inductive Display.Writes (limit : Nat) (display : Display) (value : Value) : String → Prop where
  | line (asked : display.Asks value) (displayed : value.inspect limit = .ok text) :
      Writes limit display value (text ++ "\n")
  | nothing (unasked : ¬ display.Asks value) : Writes limit display value ""

/-- The reasons why a source has no value that can be reported, each with what is said about it. -/
inductive Session.FailsWith (session : Session) (limit : Nat) (display : Display)
    (source : String) : String → Prop where
  | rejected (parsed : Node.parse limit source = .error rejection) :
      FailsWith session limit display source rejection.message
  | overflown (ended : (session.run limit source).result = .error (.fault .overflow)) :
      FailsWith session limit display source "maximum recursion depth exceeded"
  | error (ended : (session.run limit source).result = .ok (.error kind message)) :
      FailsWith session limit display source message
  | undisplayed (ended : (session.run limit source).result = .ok value)
      (asked : display.Asks value) (tooDeep : value.inspect limit = .error .overflow) :
      FailsWith session limit display source "maximum recursion depth exceeded"

/-- A painted text has the text in it as it was. -/
def Paint.KeepsText (paint : Paint) : Prop :=
  ∀ text, ∃ before after, paint text = before ++ text ++ after

namespace Report

/-- The value is reported on the standard output and nothing on the standard error. -/
structure Shows (report : Report) (paint : Paint) (color : Bool) (limit : Nat) (display : Display)
    (value : Value) : Prop where
  verdict_eq : report.verdict = .value value
  stdout : display.Writes limit value report.transcript.stdout
  stderr : report.transcript.stderr paint color = ""

/-- One diagnostic is reported on the standard error and nothing on the standard output. The
diagnostic begins with `error: `, in colours or plain. -/
structure Diagnoses (report : Report) (paint : Paint) (color : Bool) (message : String) : Prop where
  verdict_eq : report.verdict = .diagnosed
  stdout : report.transcript.stdout = ""
  stderr : report.transcript.stderr paint color = diagnosticHead paint color ++ message ++ "\n"
  head : ∃ before after, diagnosticHead paint color = before ++ "error: " ++ after
  plain : color = false → diagnosticHead paint color = "error: "

def Single (report : Report) (limit : Nat) : Prop :=
  (∃ value text, report.verdict = .value value ∧ value.inspect limit = .ok text ∧
    report.transcript = #[.shown text]) ∨
  ∃ message, report.verdict = .diagnosed ∧ report.transcript = #[.diagnostic message]

end Report

/-- The command ends as the report says: with its output, and with 0 if there is a value. -/
structure Command.Ending.Reports (ending : Ending) (report : Report) (paint : Paint)
    (color : Bool) : Prop where
  exit_eq : ending.exit = if report.value?.isSome then 0 else 1
  stdout_eq : ending.stdout = report.transcript.stdout
  stderr_eq : ending.stderr = report.transcript.stderr paint color

section Display

variable {display : Display} {value : Value}

theorem Display.entries_asked (asked : display.Asks value) (limit : Nat) :
    display.entries limit value = (value.inspect limit).map fun text => #[.shown text] := by
  have shown : display.entries limit value = return #[.shown (← value.inspect limit)] := by
    rcases asked with rfl | ⟨rfl, other⟩
    · rfl
    · cases value with
      | null => exact absurd rfl other
      | _ => rfl
  rw [shown]
  cases value.inspect limit <;> rfl

theorem Display.entries_unasked (unasked : ¬ display.Asks value) (limit : Nat) :
    display.entries limit value = .ok #[] := by
  cases display with
  | nothing => rfl
  | every => exact absurd (.inl rfl) unasked
  | nonNull =>
    cases value with
    | null => rfl
    | _ => exact absurd (.inr ⟨rfl, nofun⟩) unasked

theorem Display.entries_ok {shown : Transcript} (displayed : display.entries limit value = .ok shown) :
    (∃ text, display.Asks value ∧ value.inspect limit = .ok text ∧ shown = #[.shown text]) ∨
      ¬ display.Asks value ∧ shown = #[] := by
  by_cases asked : display.Asks value
  · rw [entries_asked asked] at displayed
    cases made : value.inspect limit with
    | error fault =>
      rw [made] at displayed
      cases displayed
    | ok text =>
      rw [made] at displayed
      cases displayed
      exact .inl ⟨text, asked, rfl, rfl⟩
  · rw [entries_unasked asked] at displayed
    cases displayed
    exact .inr ⟨asked, rfl⟩

theorem Display.entries_error (failed : display.entries limit value = .error fault) :
    display.Asks value ∧ value.inspect limit = .error fault := by
  by_cases asked : display.Asks value
  · rw [entries_asked asked] at failed
    cases made : value.inspect limit with
    | error reason =>
      rw [made] at failed
      cases failed
      exact ⟨asked, rfl⟩
    | ok text =>
      rw [made] at failed
      cases failed
  · rw [entries_unasked asked] at failed
    cases failed

end Display

theorem diagnosticHead_keeps {paint : Paint} (keeps : paint.KeepsText) (color : Bool) :
    ∃ before after, diagnosticHead paint color = before ++ "error: " ++ after := by
  cases color with
  | false => exact ⟨"", "", rfl⟩
  | true => exact keeps "error: "

theorem diagnosticHead_ne_empty {paint : Paint} (keeps : paint.KeepsText) (color : Bool) :
    diagnosticHead paint color ≠ "" := by
  obtain ⟨before, after, same⟩ := diagnosticHead_keeps keeps color
  rw [same]
  simp

theorem Report.shows_entries {shown : Transcript} (displayed : display.entries limit value = .ok shown)
    (session : Session) (paint : Paint) (color : Bool) :
    Report.Shows ⟨.value value, shown, session⟩ paint color limit display value := by
  rcases Display.entries_ok displayed with ⟨text, asked, made, rfl⟩ | ⟨unasked, rfl⟩
  · refine ⟨rfl, ?_, by simp [Transcript.stderr, Entry.stderr]⟩
    simpa [Transcript.stdout, Entry.stdout] using Display.Writes.line asked made
  · exact ⟨rfl, .nothing unasked, rfl⟩

theorem Report.diagnoses_single {paint : Paint} (keeps : paint.KeepsText) (message : String)
    (session : Session) (color : Bool) :
    Report.Diagnoses ⟨.diagnosed, #[.diagnostic message], session⟩ paint color message where
  verdict_eq := rfl
  stdout := by simp [Transcript.stdout, Entry.stdout]
  stderr := by simp [Transcript.stderr, Entry.stderr]
  head := diagnosticHead_keeps keeps color
  plain := by
    rintro rfl
    rfl

namespace Outcome

variable {outcome : Outcome} {limit : Nat} {display : Display}

theorem fail_quiet {failure : Failure} (quiet : outcome.log = #[])
    (handled : failure.escape? = none) :
    outcome.fail failure = ⟨.diagnosed, #[.diagnostic failure.message], outcome.session⟩ := by
  simp only [fail, handled, quiet]
  rfl

theorem report_of_failure {failure : Failure} (quiet : outcome.log = #[])
    (failed : outcome.result = .error failure) (handled : failure.escape? = none) :
    outcome.report ⟨limit, false, display⟩ =
      ⟨.diagnosed, #[.diagnostic failure.message], outcome.session⟩ := by
  simp only [report, failed]
  exact fail_quiet quiet handled

theorem report_of_error {kind : ErrorKind} {message : String} (quiet : outcome.log = #[])
    (failed : outcome.result = .ok (.error kind message)) :
    outcome.report ⟨limit, false, display⟩ =
      ⟨.diagnosed, #[.diagnostic message], outcome.session⟩ := by
  simp only [report, failed, quiet]
  rfl

end Outcome

namespace Session

variable {session : Session} {limit : Nat} {display : Display} {source : String}

theorem report_run (session : Session) (limit : Nat) (display : Display) (source : String) :
    session.report ⟨limit, false, display⟩ source =
      (session.run limit source).report ⟨limit, false, display⟩ :=
  rfl

theorem run_of_rejected {rejection : Rejection} (parsed : Node.parse limit source = .error rejection) :
    (session.run limit source).result = .error (.rejected rejection) := by
  simp only [run, parsed]

theorem run_cases (complete : session.heap.Complete) (limit : Nat) (display : Display)
    (source : String) :
    (∃ failure, (session.run limit source).result = .error failure ∧ failure.escape? = none ∧
      session.FailsWith limit display source failure.message) ∨
    ∃ value, (session.run limit source).result = .ok value ∧ value.Complete := by
  cases parsed : Node.parse limit source with
  | error rejection =>
    exact .inl ⟨.rejected rejection, run_of_rejected parsed, rfl, .rejected parsed⟩
  | ok tree =>
    have ended : (session.run limit source).Complete := go_complete complete parsed false
    rcases ended.only with overflown | ⟨value, done⟩
    · exact .inl ⟨.fault .overflow, overflown, rfl, .overflown overflown⟩
    · exact .inr ⟨value, done, ended.value value done⟩

/-- A source is reported by what is displayed of its value, or by the reason why it has none that
could be displayed. -/
theorem report_cases (complete : session.heap.Complete) (limit : Nat) (display : Display)
    (source : String) :
    (∃ value shown, (session.run limit source).result = .ok value ∧
      display.entries limit value = .ok shown ∧
      session.report ⟨limit, false, display⟩ source =
        ⟨.value value, shown, (session.run limit source).session⟩) ∨
    ∃ message, session.FailsWith limit display source message ∧
      session.report ⟨limit, false, display⟩ source =
        ⟨.diagnosed, #[.diagnostic message], (session.run limit source).session⟩ := by
  have quiet := session.run_log limit source
  rw [report_run]
  rcases run_cases complete limit display source with
    ⟨failure, failed, handled, reason⟩ | ⟨value, done, whole⟩
  · exact .inr ⟨failure.message, reason, Outcome.report_of_failure quiet failed handled⟩
  · by_cases calm : value.shape = .error
    · obtain ⟨kind, message, rfl⟩ := Value.error_of_shape calm
      exact .inr ⟨message, .error done, Outcome.report_of_error quiet done⟩
    · rw [Outcome.report_of_value done calm]
      cases displayed : display.entries limit value with
      | ok shown =>
        refine .inl ⟨value, shown, done, displayed, ?_⟩
        simp only [quiet, Array.empty_append]
      | error fault =>
        -- A complete value can only be too deep to be displayed.
        obtain ⟨asked, failed⟩ := Display.entries_error displayed
        cases (Value.inspect_onlyCut whole limit).eq_stop failed
        exact .inr ⟨_, .undisplayed done asked failed, Outcome.fail_quiet quiet rfl⟩

theorem FailsWith.verdict_eq (failed : session.FailsWith limit display source message) :
    (session.report ⟨limit, false, display⟩ source).verdict = .diagnosed := by
  have quiet := session.run_log limit source
  rw [report_run]
  cases failed with
  | rejected parsed => rw [Outcome.report_of_failure quiet (run_of_rejected parsed) rfl]
  | overflown ended => rw [Outcome.report_of_failure quiet ended rfl]
  | error ended => rw [Outcome.report_of_error quiet ended]
  | @undisplayed value ended asked tooDeep =>
    by_cases calm : value.shape = .error
    · obtain ⟨kind, message, rfl⟩ := Value.error_of_shape calm
      rw [Outcome.report_of_error quiet ended]
    · rw [Outcome.report_of_value ended calm, Display.entries_asked asked, tooDeep]
      rfl

theorem report_one_channel {paint : Paint} (keeps : paint.KeepsText)
    (complete : session.heap.Complete) (limit : Nat) (color : Bool) (display : Display)
    (source : String) :
    (∃ value, (session.run limit source).result = .ok value ∧
      (session.report ⟨limit, false, display⟩ source).Shows paint color limit display value) ∨
    ∃ message, session.FailsWith limit display source message ∧
      (session.report ⟨limit, false, display⟩ source).Diagnoses paint color message := by
  rcases report_cases complete limit display source with
    ⟨value, shown, done, displayed, reported⟩ | ⟨message, reason, reported⟩
  · rw [reported]
    exact .inl ⟨value, done, Report.shows_entries displayed _ paint color⟩
  · rw [reported]
    exact .inr ⟨message, reason, Report.diagnoses_single keeps message _ color⟩

theorem report_single (complete : session.heap.Complete) (limit : Nat) (source : String) :
    (session.report ⟨limit, false, .every⟩ source).Single limit := by
  rcases report_cases complete limit .every source with
    ⟨value, shown, _, displayed, reported⟩ | ⟨message, _, reported⟩
  · rw [reported]
    rcases Display.entries_ok displayed with ⟨text, _, made, rfl⟩ | ⟨unasked, _⟩
    · exact .inl ⟨value, text, rfl, made, rfl⟩
    · exact absurd (.inl rfl) unasked
  · rw [reported]
    exact .inr ⟨message, rfl, rfl⟩

theorem reportAll_single (complete : session.heap.Complete) (limit : Nat) (lines : List String) :
    (session.reportAll ⟨limit, false, .every⟩ lines).length = lines.length ∧
    ∀ report ∈ session.reportAll ⟨limit, false, .every⟩ lines, report.Single limit := by
  induction lines generalizing session with
  | nil => exact ⟨rfl, nofun⟩
  | cons line lines ih =>
    obtain ⟨length, others⟩ := ih (report_complete complete ⟨limit, false, .every⟩ line)
    simp only [reportAll, report_escape_eq complete]
    exact ⟨congrArg (· + 1) length,
      List.forall_mem_cons.mpr ⟨report_single complete limit line, others⟩⟩

end Session

/-- Where no fault escapes, a dialogue goes on to the end of input. -/
theorem Command.script_unescaped (reports : List Report)
    (unescaped : ∀ report ∈ reports, report.escape? = none) :
    script (reports.map Report.showing) =
      ⟨reports.foldr (fun report rest => #[.prompt] ++ report.transcript ++ rest)
        #[.prompt, .remark "\n"], none⟩ := by
  induction reports with
  | nil => rfl
  | cons report reports ih =>
    obtain ⟨first, others⟩ := List.forall_mem_cons.mp unescaped
    simp only [List.map_cons, script, Report.showing, first, ih others, List.foldr_cons]

theorem Command.runFile_reports {paint : Paint} (keeps : paint.KeepsText) {options : Options}
    (quiet : options.debug = false) (limit : Nat) (named : path.endsWith ".monkey" = true)
    (content : String) :
    ∃ ending, runFile paint limit options path (.file content) = .ok ending ∧
      ending.Reports (Session.fresh.report ⟨limit, false, .nonNull⟩
        (String.ofList (unifyNewlines content.toList))) paint options.color ∧
      (ending.exit = 0 ↔ ending.stderr = "") := by
  obtain ⟨file, debug, color⟩ := options
  cases quiet
  simp only [runFile, named, runContent, fileManner]
  rcases Session.report_one_channel keeps Session.fresh_complete limit color .nonNull
      (String.ofList (unifyNewlines content.toList)) with ⟨value, _, shown⟩ | ⟨message, _, told⟩
  · rw [shown.verdict_eq]
    refine ⟨_, rfl, ⟨?_, rfl, rfl⟩, iff_of_true rfl shown.stderr⟩
    simp [Report.value?, shown.verdict_eq, Ending.ofTranscript]
  · rw [told.verdict_eq]
    refine ⟨_, rfl, ⟨?_, rfl, rfl⟩, iff_of_false Nat.one_ne_zero ?_⟩
    · simp [Report.value?, told.verdict_eq, Ending.ofTranscript]
    · have headed := diagnosticHead_ne_empty keeps color
      simp [Ending.ofTranscript, told.stderr, headed]

/-- Without a log, and where all stored functions have complete bodies, a source has its value
reported on the standard output, as far as it is to be displayed, or one diagnostic on the standard
error, and the latter when it is rejected, overflows, ends with an error, or has a value that is too
deep to be displayed. Each line of a dialogue has one value or one diagnostic, and a file is
reported as a source of a new session, and ends the command with 0 when the standard error is
empty. -/
theorem sources_reported_on_one_channel (session : Session) (complete : session.heap.Complete)
    (paint : Paint) (keeps : paint.KeepsText) (limit : Nat) :
    (∀ color display source,
      ((∃ value, (session.run limit source).result = .ok value ∧
          (session.report ⟨limit, false, display⟩ source).Shows paint color limit display value) ∨
        ∃ message, session.FailsWith limit display source message ∧
          (session.report ⟨limit, false, display⟩ source).Diagnoses paint color message) ∧
      ((session.report ⟨limit, false, display⟩ source).verdict = .diagnosed ↔
        ∃ message, session.FailsWith limit display source message)) ∧
    (∀ lines,
      (session.reportAll ⟨limit, false, .every⟩ lines).length = lines.length ∧
      (∀ report ∈ session.reportAll ⟨limit, false, .every⟩ lines, report.Single limit) ∧
      Command.dialogue session ⟨limit, false, .every⟩ lines =
        ⟨(session.reportAll ⟨limit, false, .every⟩ lines).foldr
          (fun report rest => #[.prompt] ++ report.transcript ++ rest)
          #[.prompt, .remark "\n"], none⟩) ∧
    ∀ (options : Command.Options) path content, options.debug = false →
      path.endsWith ".monkey" = true →
      ∃ ending, Command.runFile paint limit options path (.file content) = .ok ending ∧
        ending.Reports (Session.fresh.report ⟨limit, false, .nonNull⟩
          (String.ofList (unifyNewlines content.toList))) paint options.color ∧
        (ending.exit = 0 ↔ ending.stderr = "") := by
  refine ⟨fun color display source => ?_, fun lines => ?_, fun options path content quiet named => ?_⟩
  · have reported := Session.report_one_channel keeps complete limit color display source
    refine ⟨reported, fun diagnosed => ?_, fun ⟨_, failed⟩ => failed.verdict_eq⟩
    rcases reported with ⟨value, _, shown⟩ | ⟨message, reason, _⟩
    · cases diagnosed.symm.trans shown.verdict_eq
    · exact ⟨message, reason⟩
  · obtain ⟨length, single⟩ := Session.reportAll_single complete limit lines
    have unescaped := Session.reportAll_escape_eq complete ⟨limit, false, .every⟩ lines
    exact ⟨length, single, Command.script_unescaped _ unescaped⟩
  · exact Command.runFile_reports keeps quiet limit named content

/-- An array that is bound, and found again, but nested too deeply to be displayed: it is diagnosed
where it is to be displayed, with the head in bold red. A file that finds no such name is diagnosed
as a source of a new session is. -/
theorem sources_reported_on_one_channel_deep :
    Heap.Complete ⟨#[⟨[("a", .array [.array [.array [.array []]]])], none⟩]⟩ ∧
    Paint.KeepsText (fun text => "\x1b[1m\x1b[31m" ++ text ++ "\x1b[0m") ∧
    (Session.run ⟨⟨#[⟨[("a", .array [.array [.array [.array []]]])], none⟩]⟩, 0⟩ 3 "a").result =
      .ok (.array [.array [.array [.array []]]]) ∧
    (Session.report ⟨⟨#[⟨[("a", .array [.array [.array [.array []]]])], none⟩]⟩, 0⟩ ⟨3, false, .every⟩
      "a").verdict = .diagnosed ∧
    "a.monkey".endsWith ".monkey" = true ∧
    ∃ ending, Command.runFile (fun text => "\x1b[1m\x1b[31m" ++ text ++ "\x1b[0m") 3 {} "a.monkey"
        (.file "a") = .ok ending ∧ ending.exit = 1 ∧
      ending.stderr = "\x1b[1m\x1b[31merror: \x1b[0mIdentifier not found: a\n" := by
  have complete : Heap.Complete ⟨#[⟨[("a", .array [.array [.array [.array []]]])], none⟩]⟩ := by
    intro id name value bound
    cases bound.of_single
    have nested {value : Value} (inside : value.Complete) : (Value.array [value]).Complete :=
      .intro trivial (List.forall_mem_singleton.mpr inside)
    exact nested (nested (nested (.leaf trivial rfl)))
  have keeps : Paint.KeepsText (fun text => "\x1b[1m\x1b[31m" ++ text ++ "\x1b[0m") :=
    fun text => ⟨_, _, rfl⟩
  have done : (Session.run ⟨⟨#[⟨[("a", .array [.array [.array [.array []]]])], none⟩]⟩, 0⟩ 3
      "a").result = .ok (.array [.array [.array [.array []]]]) := by
    cbv
  have tooDeep : (Value.array [.array [.array [.array []]]]).inspect 3 = .error .overflow := by
    cbv
  have named : "a.monkey".endsWith ".monkey" = true := by
    cbv
  obtain ⟨source, _, file⟩ := sources_reported_on_one_channel
    ⟨⟨#[⟨[("a", .array [.array [.array [.array []]]])], none⟩]⟩, 0⟩ complete _ keeps 3
  obtain ⟨ending, run, reports, _⟩ := file {} "a.monkey" "a" rfl named
  refine ⟨complete, keeps, done, ?_, named, ending, run, ?_, ?_⟩
  · exact (source true .every "a").2.mpr ⟨_, .undisplayed done (.inl rfl) tooDeep⟩
  · rw [reports.exit_eq]
    cbv
  · rw [reports.stderr_eq]
    cbv

end Capuchin
