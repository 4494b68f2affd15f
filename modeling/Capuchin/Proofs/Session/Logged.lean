import Capuchin.Proofs.Limit.Evaluating
import Capuchin.Proofs.Session.Complete
import Capuchin.Session.Report
import Mathlib

namespace Capuchin

def Entry.isLog : Entry → Bool
  | .log _ _ => true
  | _ => false

def Transcript.unlogged (transcript : Transcript) : Transcript :=
  transcript.filter fun entry => !entry.isLog

def Outcome.unlogged (outcome : Outcome) : Outcome :=
  { outcome with log := outcome.log.unlogged }

def Report.unlogged (report : Report) : Report :=
  { report with transcript := report.transcript.unlogged }

namespace Transcript

variable {transcript : Transcript} {entry : Entry}

theorem unlogged_push_log (log : entry.isLog = true) :
    Transcript.unlogged (transcript.push entry) = transcript.unlogged := by
  simp [unlogged, log]

theorem unlogged_push (other : entry.isLog = false) :
    Transcript.unlogged (transcript.push entry) = transcript.unlogged.push entry := by
  simp [unlogged, other]

theorem unlogged_stdout (transcript : Transcript) :
    transcript.unlogged.stdout = transcript.stdout := by
  unfold stdout unlogged
  rw [Array.foldl_filter]
  congr
  funext text entry
  cases entry <;> simp [Entry.isLog, Entry.stdout]

end Transcript

theorem Log.call_isLog (made : Log.call limit function args = .ok entry) : entry.isLog = true := by
  obtain ⟨name, _, made⟩ := bind_eq_ok made
  obtain ⟨texts, _, made⟩ := bind_eq_ok made
  cases made
  rfl

theorem Log.tree_isLog (made : Log.tree limit program = .ok entry) : entry.isLog = true := by
  obtain ⟨text, _, made⟩ := bind_eq_ok made
  cases made
  rfl

/-- An event adds log lines at most, or cannot be logged. -/
theorem Log.calls_adds (limit : Nat) (event : Event) (log : Transcript) :
    (∃ later, Log.calls limit event log = .ok later ∧ later.unlogged = log.unlogged) ∨
      ∃ fault, Log.calls limit event log = .error fault := by
  cases event with
  | call callee args =>
    cases made : Log.call limit callee args with
    | error fault => exact .inr ⟨fault, by simp [Log.calls, made]⟩
    | ok entry =>
      refine .inl ⟨log.push entry, by simp [Log.calls, made], ?_⟩
      exact Transcript.unlogged_push_log (Log.call_isLog made)
  | _ => exact .inl ⟨log, rfl, rfl⟩

/-- Logging calls beside not logging them: only the log is different, unless a call cannot be
displayed. -/
def Pace.logging : Pace Log.calls (Monitor.silent : Monitor Transcript) :=
  .levelled (fun _ => True) (fun logged quiet => logged.unlogged = quiet) silent_passive <| by
    rintro limit _ event logged _ _ rfl ⟨⟩
    rcases Log.calls_adds limit event logged with ⟨later, told, same⟩ | ⟨fault, failed⟩
    · exact .inl ⟨later, told, same⟩
    · exact .inr ⟨fault, failed, trivial⟩

namespace Session

variable {session : Session} {limit : Nat} {source : String}

theorem evaluate_unlogged {tree : Node} {log : Transcript}
    (done : (session.evaluate Log.calls limit tree log).result = .ok value) :
    session.evaluate .silent limit tree log.unlogged =
      (session.evaluate Log.calls limit tree log).unlogged := by
  have spans : Pace.logging.Spans limit limit := .refl limit
  have both := (Pace.keeps_eval spans tree session.scope).abreast session.heap log _ rfl
  rcases ended : (tree.eval Log.calls limit session.scope).ending ⟨session.heap, log⟩
    with ⟨result, left⟩
  rcases quiet : (tree.eval .silent limit session.scope).ending ⟨session.heap, log.unlogged⟩
    with ⟨other, last⟩
  rw [ended, quiet] at both
  rw [evaluate_eq ended] at done ⊢
  rw [evaluate_eq quiet]
  cases both with
  | same level =>
    cases level
    rfl
  | early => cases done

/-- A source is run as if there were no log, if the log of it can be written. -/
theorem run_eq_unlogged (complete : session.heap.Complete)
    (finished : (session.runLogged limit source).result ≠ .error (.fault .overflow)) :
    session.run limit source = (session.runLogged limit source).unlogged := by
  have begins : Transcript.unlogged #[Log.tokens source] = #[] := rfl
  cases parsed : Node.parse limit source with
  | error rejection => simp only [run, runLogged, parsed, Outcome.unlogged, begins]
  | ok tree =>
    -- The log may stop a run early, but stored functions are complete, so that was an overflow.
    have only : OnlyCut (.fault .overflow) (session.runLogged limit source).result :=
      (go_complete complete parsed true).only
    obtain ⟨value, done⟩ := only.resolve_left finished
    cases outlined : Log.tree limit tree with
    | error fault =>
      simp only [runLogged, parsed, outlined] at done
      cases done
    | ok entry =>
      simp only [run, runLogged, parsed, outlined] at done ⊢
      have same := evaluate_unlogged done
      rwa [Transcript.unlogged_push_log (Log.tree_isLog outlined), begins] at same

theorem run_log (session : Session) (limit : Nat) (source : String) :
    (session.run limit source).log = #[] := by
  unfold run
  split
  · rfl
  · rename_i tree _
    rw [evaluate_eq (eval_unwatched limit tree session.scope session.heap #[])]

end Session

theorem Display.unlogged_append {shown : Transcript}
    (displayed : Display.entries limit display value = .ok shown) (log : Transcript) :
    Transcript.unlogged (log ++ shown) = log.unlogged ++ shown := by
  have kept : Transcript.unlogged shown = shown := by
    unfold Display.entries at displayed
    split at displayed
    · cases displayed
      rfl
    · cases displayed
      rfl
    · obtain ⟨text, _, displayed⟩ := bind_eq_ok displayed
      cases displayed
      rfl
  unfold Transcript.unlogged at kept ⊢
  rw [Array.filter_append Array.size_append, kept]

theorem Outcome.fail_unlogged (outcome : Outcome) (failure : Failure) :
    outcome.unlogged.fail failure = (outcome.fail failure).unlogged := by
  unfold fail
  split
  · simp only [unlogged, Report.unlogged]
    rw [Transcript.unlogged_push rfl]
  · rfl

theorem Outcome.report_unlogged (outcome : Outcome) (limit : Nat) (display : Display) :
    outcome.unlogged.report ⟨limit, false, display⟩ =
      (outcome.report ⟨limit, true, display⟩).unlogged := by
  have fails := outcome.fail_unlogged
  obtain ⟨result, log, session⟩ := outcome
  cases result with
  | error failure => exact fails failure
  | ok value =>
    cases value with
    | error kind message =>
      have noted := @Transcript.unlogged_push_log log (Log.errorKind kind) rfl
      have diagnosed := @Transcript.unlogged_push (log.push (Log.errorKind kind))
        (.diagnostic message) rfl
      simp only [report, unlogged, Report.unlogged, diagnosed, noted, if_true, Bool.false_eq_true,
        if_false]
    | _ =>
      simp only [report, unlogged, Report.unlogged]
      split
      · exact fails _
      · simp only [Display.unlogged_append ‹_›]

/-- A source that does not overflow while it is logged is run in the same way without a log: to the
same result, with the same session after it, and with the same output and diagnostics, whatever is
displayed. A log consists of log lines. -/
theorem logging_only_adds_lines {session : Session} (reached : Session.fresh.Later session)
    (limit : Nat) (source : String)
    (finished : (session.runLogged limit source).result ≠ .error (.fault .overflow)) :
    session.run limit source = (session.runLogged limit source).unlogged ∧
    (session.run limit source).log = #[] ∧
    ∀ display, session.report ⟨limit, false, display⟩ source =
        (session.report ⟨limit, true, display⟩ source).unlogged ∧
      (session.report ⟨limit, false, display⟩ source).transcript.stdout =
        (session.report ⟨limit, true, display⟩ source).transcript.stdout := by
  have complete : session.heap.Complete := reached.complete Session.fresh_complete
  have same := Session.run_eq_unlogged complete finished
  refine ⟨same, Session.run_log session limit source, fun display => ?_⟩
  have reported : session.report ⟨limit, false, display⟩ source =
      (session.report ⟨limit, true, display⟩ source).unlogged := by
    simp only [Session.report, Bool.false_eq_true, if_true, if_false]
    rw [same, Outcome.report_unlogged]
  refine ⟨reported, ?_⟩
  rw [reported]
  exact Transcript.unlogged_stdout _

/-- A call is logged whatever the log before it is, so that need not be computed. -/
private theorem evaluate_logged_call (log : Transcript) :
    Session.evaluate ⟨⟨#[⟨[("f", .fn ["x"] (.block [.exprStmt (.ident "x")]) 0)], none⟩]⟩, 0⟩
        Log.calls 9 (.program [.exprStmt (.call (.ident "f") [.bool true])]) log =
      ⟨.ok (.bool true), log.push (.log .evaluation "Calling fn(x) \x7b x; \x7d with ['true']"),
        ⟨⟨#[⟨[("f", .fn ["x"] (.block [.exprStmt (.ident "x")]) 0)], none⟩,
          ⟨[("x", .bool true)], some 0⟩]⟩, 0⟩⟩ := by
  cbv

/-- The source `f(true)` after a source that binds `f` to a function. The log of it has a line for
its tokens, for its tree and for the call. Without a log its result is all that is written. -/
theorem logging_only_adds_lines_call : ∃ session, Session.fresh.Later session ∧
    (session.runLogged 9 "f(true)").result = .ok (.bool true) ∧
    (session.runLogged 9 "f(true)").log = #[Log.tokens "f(true)",
      .log .reading ("AST: Program(statements=[ExpressionStatement(expression=CallExpression(" ++
        "function=Identifier(value='f'), arguments=[BooleanLiteral(value=True)]))])"),
      .log .evaluation "Calling fn(x) \x7b x; \x7d with ['true']"] ∧
    (session.report ⟨9, false, .every⟩ "f(true)").transcript = #[.shown "true"] := by
  have bound : (Session.fresh.go false 9 "let f = fn(x) \x7b x \x7d").session =
      ⟨⟨#[⟨[("f", .fn ["x"] (.block [.exprStmt (.ident "x")]) 0)], none⟩]⟩, 0⟩ := by
    cbv
  have reached := Session.Later.go (.start : Session.fresh.Later Session.fresh) false 9
    "let f = fn(x) \x7b x \x7d"
  rw [bound] at reached
  have parsed : Node.parse 9 "f(true)" =
      .ok (.program [.exprStmt (.call (.ident "f") [.bool true])]) := by
    cbv
  have outlined : Log.tree 9 (.program [.exprStmt (.call (.ident "f") [.bool true])]) =
      .ok (.log .reading
        ("AST: Program(statements=[ExpressionStatement(expression=CallExpression(" ++
          "function=Identifier(value='f'), arguments=[BooleanLiteral(value=True)]))])")) := by
    cbv
  have result : (Session.runLogged
      ⟨⟨#[⟨[("f", .fn ["x"] (.block [.exprStmt (.ident "x")]) 0)], none⟩]⟩, 0⟩ 9 "f(true)").result =
      .ok (.bool true) := by
    simp only [Session.runLogged, parsed, outlined, evaluate_logged_call]
  have finished : (Session.runLogged
      ⟨⟨#[⟨[("f", .fn ["x"] (.block [.exprStmt (.ident "x")]) 0)], none⟩]⟩, 0⟩ 9 "f(true)").result ≠
      .error (.fault .overflow) := by
    rw [result]
    intro overflowed
    cases overflowed
  obtain ⟨same, empty, _⟩ := logging_only_adds_lines reached 9 "f(true)" finished
  have quiet := (congrArg Outcome.result same).trans result
  refine ⟨_, reached, result, ?_, ?_⟩
  · simp only [Session.runLogged, parsed, outlined, evaluate_logged_call, List.push_toArray,
      List.cons_append, List.nil_append]
  · simp only [Session.report, Bool.false_eq_true, if_false, Outcome.report, quiet, empty]
    rfl

end Capuchin
