import Capuchin.Session.Basic

/-! Running sources for a user. A source is reported by its result or by one diagnostic, never by
both; a result that is too deep to be displayed counts as failed. Other faults than an overflow are
not reported: they escape, and nothing is run after them. -/

namespace Capuchin

/-- Which results are displayed. -/
inductive Display where
  | nothing
  | every
  | nonNull
  deriving DecidableEq

/-- The entries that display a result. -/
def Display.entries (limit : Nat) (display : Display) (value : Value) : Except Fault Transcript :=
  match display, value with
  | .nothing, _ => .ok #[]
  | .nonNull, .null => .ok #[]
  | _, value => return #[.shown (← value.inspect limit)]

/-- How sources are run: with or without a log, and what is displayed of results. -/
structure Manner where
  limit : Nat
  debug : Bool := false
  display : Display := .nothing

/-- What comes of a source for its user. -/
inductive Verdict where
  | value (value : Value)
  /-- There is no value, and a diagnostic says why. -/
  | diagnosed
  /-- A fault that the user's side does not handle. -/
  | escaped (fault : Fault)

/-- What a user sees of a source, and what comes of it. -/
structure Report where
  verdict : Verdict
  transcript : Transcript
  session : Session

def Report.value? (report : Report) : Option Value :=
  match report.verdict with
  | .value value => some value
  | _ => none

def Report.escape? (report : Report) : Option Fault :=
  match report.verdict with
  | .escaped fault => some fault
  | _ => none

/-- What a report shows: what is written, and the fault that escapes, if there is one. -/
structure Showing where
  transcript : Transcript
  escape? : Option Fault := none

def Report.showing (report : Report) : Showing :=
  ⟨report.transcript, report.escape?⟩

/-- The fault that escapes, if the failure is one that is not reported. -/
def Failure.escape? : Failure → Option Fault
  | .rejected _ | .fault .overflow => none
  | .fault reason => some reason

namespace Outcome

/-- Report a failure by its diagnostic, or let it escape. -/
def fail (outcome : Outcome) (failure : Failure) : Report :=
  match failure.escape? with
  | none => ⟨.diagnosed, outcome.log.push (.diagnostic failure.message), outcome.session⟩
  | some fault => ⟨.escaped fault, outcome.log, outcome.session⟩

def report (manner : Manner) (outcome : Outcome) : Report :=
  match outcome.result with
  | .error failure => outcome.fail failure
  | .ok (.error kind message) =>
    let log := if manner.debug then outcome.log.push (Log.errorKind kind) else outcome.log
    ⟨.diagnosed, log.push (.diagnostic message), outcome.session⟩
  | .ok value =>
    match manner.display.entries manner.limit value with
    | .error fault => outcome.fail (.fault fault)
    | .ok entries => ⟨.value value, outcome.log ++ entries, outcome.session⟩

end Outcome

namespace Session

/-- Run one source and report it. -/
def report (session : Session) (manner : Manner) (source : String) : Report :=
  let outcome :=
    if manner.debug then session.runLogged manner.limit source
    else session.run manner.limit source
  outcome.report manner

/-- Run several sources in one session, up to one from which a fault escapes. -/
def reportAll (session : Session) (manner : Manner) : List String → List Report
  | [] => []
  | source :: sources =>
    let report := session.report manner source
    match report.escape? with
    | some _ => [report]
    | none => report :: report.session.reportAll manner sources

end Session

end Capuchin
