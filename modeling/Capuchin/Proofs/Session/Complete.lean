import Capuchin.Proofs.Evaluate.Regime
import Capuchin.Proofs.Limit.Complete
import Capuchin.Proofs.RoundTrip.Inverse
import Capuchin.Proofs.Session.Later
import Capuchin.Session.Report
import Mathlib

namespace Capuchin

/-- All stored functions, at any depth, have complete bodies. -/
def Heap.Complete (heap : Heap) : Prop :=
  ∀ id name value, heap.Binds id name value → value.Complete

theorem WellFormed.isBlock (formed : WellFormed .block node) : node.isBlock = true := by
  cases formed
  rfl

theorem WellFormed.complete (formed : WellFormed role node) : node.Complete := by
  induction formed with
  | hash _ _ keys values =>
    refine .intro (by simp) (by simp [Node.braces]) (fun part member => ?_) (by simp [Node.bodies])
    obtain ⟨pair, among, found⟩ := List.mem_flatMap.mp member
    rcases List.mem_pair.mp found with rfl | rfl
    · exact keys pair among
    · exact values pair among
  | _ =>
    exact .intro (by simp) (by simp_all [Node.braces, WellFormed.isBlock])
      (by simp_all [Node.parts]) (by simp_all [Node.bodies])

namespace Node

variable {node part : Node}

theorem parts_of_operands (member : part ∈ node.operands) : part ∈ node.parts := by
  cases node <;> simp_all [operands, parts]

theorem parts_of_outlets (member : part ∈ node.outlets) : part ∈ node.parts := by
  cases node <;> simp_all [outlets, parts]

end Node

/-- Only complete nodes are evaluated and stored, and only an overflow stops the run. -/
def Regime.complete : Regime where
  admits _ node := node.Complete
  holds value := value.BodyIs Node.Complete
  blames fault := fault = .overflow
  admits_operand complete member := complete.parts _ (Node.parts_of_operands member)
  admits_outlet complete member := complete.parts _ (Node.parts_of_outlets member)
  admits_body held := held
  holds_fn complete := complete.bodies _ (by simp [Node.bodies])
  holds_returned _ := trivial
  holds_other other _ := Value.bodyIs_of_shape other
  blames_overflow := rfl
  blames_inspect complete failed := (Value.inspect_onlyCut complete _).eq_stop failed

namespace Regime

def quiet (σ : Type) : complete.Audit (Monitor.silent : Monitor σ) :=
  .none complete .silent nofun

/-- A call can be logged, unless it is too deep to be displayed. -/
def logged : complete.Audit Log.calls :=
  .none complete Log.calls fun {_ limit event transcript fault} tells failed => by
    cases event with
    | call callee args =>
      have only : OnlyCut .overflow (Log.calls limit (.call callee args) transcript) :=
        (Log.call_onlyCut tells.1 tells.2 limit).bind fun _ => .ok _
      exact only.eq_stop failed
    | _ => cases failed

end Regime

/-- A value whose functions are complete, or an overflow; and all that is stored is complete. -/
structure Outcome.Complete (outcome : Outcome) : Prop where
  heap : outcome.session.heap.Complete
  only : OnlyCut (.fault .overflow) outcome.result
  value : ∀ value, outcome.result = .ok value → value.Complete

theorem Display.entries_onlyCut (complete : value.Complete) (limit : Nat) (display : Display) :
    OnlyCut .overflow (display.entries limit value) := by
  unfold Display.entries
  split
  · exact .ok _
  · exact .ok _
  · exact (Value.inspect_onlyCut complete limit).bind fun _ => .ok _

theorem Value.error_of_shape {value : Value} (failed : value.shape = .error) :
    ∃ kind message, value = .error kind message := by
  cases value with
  | error kind message => exact ⟨kind, message, rfl⟩
  | _ => cases failed

/-- A value that is no error is reported by its display, if that can be made. -/
theorem Outcome.report_of_value {outcome : Outcome} (done : outcome.result = .ok value)
    (calm : value.shape ≠ .error) :
    outcome.report manner =
      match manner.display.entries manner.limit value with
      | .error fault => outcome.fail (.fault fault)
      | .ok entries => ⟨.value value, outcome.log ++ entries, outcome.session⟩ := by
  obtain ⟨result, log, session⟩ := outcome
  cases done
  cases value with
  | error kind message => exact absurd rfl calm
  | _ => rfl

theorem Outcome.report_session (manner : Manner) (outcome : Outcome) :
    (outcome.report manner).session = outcome.session := by
  have fails (failure : Failure) : (outcome.fail failure).session = outcome.session := by
    unfold fail
    split <;> rfl
  unfold report
  split
  · exact fails _
  · rfl
  · split
    · exact fails _
    · rfl

/-- No fault escapes from an outcome that is complete: an overflow is diagnosed. -/
theorem Outcome.Complete.escape_eq {outcome : Outcome} (complete : outcome.Complete)
    (manner : Manner) : (outcome.report manner).escape? = none := by
  unfold report
  split
  · rename_i failure failed
    cases complete.only.eq_stop failed
    rfl
  · rfl
  · rename_i value _ done
    have only := Display.entries_onlyCut (complete.value value done) manner.limit manner.display
    split
    · rename_i fault stopped
      cases only.eq_stop stopped
      rfl
    · rfl

namespace Session

variable {session start : Session}

theorem evaluate_complete {watch : Monitor Transcript} (audit : Regime.complete.Audit watch)
    (noted : audit.good [] log) (kept : session.heap.Complete) (complete : tree.Complete)
    (limit : Nat) : (session.evaluate watch limit tree log).Complete := by
  have admitted : Regime.complete.admits false tree := complete
  obtain ⟨result, later, marks, ended, keptLater, _, yields, blamed⟩ :=
    audit.eval_ending kept noted admitted limit session.scope
  rw [evaluate_eq ended]
  cases result with
  | error fault =>
    cases blamed fault rfl
    exact ⟨keptLater, .inl rfl, nofun⟩
  | ok value =>
    refine ⟨keptLater, .ok value, ?_⟩
    rintro _ ⟨⟩
    exact (yields value rfl).allows

theorem go_complete (kept : session.heap.Complete) (parsed : Node.parse limit source = .ok tree)
    (logged : Bool) : (session.go logged limit source).Complete := by
  have complete := (parse_wellFormed parsed).complete
  unfold go run runLogged
  rw [parsed]
  cases logged with
  | false => exact evaluate_complete (Regime.quiet Transcript) trivial kept complete limit
  | true =>
    simp only [if_true]
    cases outlined : Log.tree limit tree with
    | error fault =>
      have only : OnlyCut .overflow (Log.tree limit tree) :=
        (tree.outline_onlyCut limit).bind fun _ => .ok _
      cases only.eq_stop outlined
      exact ⟨kept, .inl rfl, nofun⟩
    | ok entry => exact evaluate_complete Regime.logged trivial kept complete limit

theorem go_rejected (parsed : Node.parse limit source = .error rejection) (session : Session)
    (logged : Bool) :
    ∃ log, session.go logged limit source = ⟨.error (.rejected rejection), log, session⟩ := by
  unfold go run runLogged
  rw [parsed]
  cases logged <;> exact ⟨_, rfl⟩

theorem fresh_complete : fresh.heap.Complete :=
  fun _ _ _ bound => (fresh_unbound bound).elim

theorem Later.complete (later : start.Later session) (kept : start.heap.Complete) :
    session.heap.Complete := by
  induction later with
  | start => exact kept
  | go _ logged limit source ih =>
    cases parsed : Node.parse limit source with
    | error rejection =>
      obtain ⟨log, rejected⟩ := go_rejected parsed _ logged
      rw [rejected]
      exact ih
    | ok tree => exact (go_complete ih parsed logged).heap

theorem report_eq (session : Session) (manner : Manner) (source : String) :
    session.report manner source =
      (session.go manner.debug manner.limit source).report manner :=
  rfl

theorem report_complete (kept : session.heap.Complete) (manner : Manner) (source : String) :
    (session.report manner source).session.heap.Complete := by
  rw [report_eq, Outcome.report_session]
  exact (Later.go .start manner.debug manner.limit source).complete kept

theorem report_escape_eq (kept : session.heap.Complete) (manner : Manner) (source : String) :
    (session.report manner source).escape? = none := by
  rw [report_eq]
  cases parsed : Node.parse manner.limit source with
  | error rejection =>
    obtain ⟨log, rejected⟩ := go_rejected parsed session manner.debug
    rw [rejected]
    rfl
  | ok tree => exact (go_complete kept parsed manner.debug).escape_eq manner

theorem reportAll_escape_eq (kept : session.heap.Complete) (manner : Manner)
    (sources : List String) :
    ∀ report ∈ session.reportAll manner sources, report.escape? = none := by
  induction sources generalizing session with
  | nil => exact nofun
  | cons source sources ih =>
    have unescaped := report_escape_eq kept manner source
    simp only [reportAll, unescaped]
    exact List.forall_mem_cons.mpr ⟨unescaped, ih (report_complete kept manner source)⟩

end Session

/-- Where all stored functions have complete bodies, a parsed source, evaluated in any scope, ends
with a value that has a text, or overflows; and all stored functions have complete bodies again. So
it is with every source of a session, however the sources before it ended, and with the log as well
as without it. -/
theorem parsed_code_only_overflows (heap : Heap) (complete : heap.Complete) :
    (∀ depth source tree, Node.parse depth source = .ok tree → ∀ limit scope,
      ((tree.eval Monitor.silent limit scope).heapAfter ⟨heap, ()⟩).Complete ∧
      OnlyCut .overflow ((tree.eval Monitor.silent limit scope).ending ⟨heap, ()⟩).1 ∧
      ∀ value, ((tree.eval Monitor.silent limit scope).ending ⟨heap, ()⟩).1 = .ok value →
        ∃ text, value.HasText text) ∧
    ∀ scope session, Session.Later ⟨heap, scope⟩ session →
      session.heap.Complete ∧
      ∀ logged limit source tree, Node.parse limit source = .ok tree →
        (session.go logged limit source).session.heap.Complete ∧
        OnlyCut (.fault .overflow) (session.go logged limit source).result ∧
        ∀ value, (session.go logged limit source).result = .ok value →
          ∃ text, value.HasText text := by
  refine ⟨fun depth source tree parsed limit scope => ?_, fun scope session later => ?_⟩
  · have admitted : Regime.complete.admits false tree := (parse_wellFormed parsed).complete
    have noted : (Regime.quiet Unit).good [] () := trivial
    obtain ⟨result, after, _, ended, kept, _, yields, blamed⟩ :=
      (Regime.quiet Unit).eval_ending complete noted admitted limit scope
    unfold Run.heapAfter
    rw [ended]
    refine ⟨kept, ?_, fun value done => ?_⟩
    · cases result with
      | error fault => exact .inl (congrArg _ (blamed fault rfl))
      | ok value => exact .ok value
    · exact Value.Complete.hasText (yields value done).allows
  · have kept := later.complete complete
    refine ⟨kept, fun logged limit source tree parsed => ?_⟩
    have ended := Session.go_complete kept parsed logged
    refine ⟨ended.heap, ended.only, fun value done => ?_⟩
    exact Value.Complete.hasText (ended.value value done)

/-- The source `f - true` for a function: its display is part of the message, so it has to have one. -/
theorem parsed_code_only_overflows_message :
    Heap.Complete ⟨#[⟨[("f", .fn ["x"] (.block [.exprStmt (.ident "x")]) 0)], none⟩]⟩ ∧
    Node.parse 9 "f - true" = .ok (.program [.exprStmt (.binary (.ident "f") .minus (.bool true))]) ∧
    ((Node.program [.exprStmt (.binary (.ident "f") .minus (.bool true))]).eval Monitor.silent 9
        0).ending ⟨⟨#[⟨[("f", .fn ["x"] (.block [.exprStmt (.ident "x")]) 0)], none⟩]⟩, ()⟩ =
      (.ok (.error .typeMismatch "Type mismatch: fn(x) \x7b x; \x7d - true"),
        ⟨⟨#[⟨[("f", .fn ["x"] (.block [.exprStmt (.ident "x")]) 0)], none⟩]⟩, ()⟩) ∧
    ∀ limit, OnlyCut .overflow ((Node.eval Monitor.silent limit
      (.program [.exprStmt (.binary (.ident "f") .minus (.bool true))]) 0).ending
        ⟨⟨#[⟨[("f", .fn ["x"] (.block [.exprStmt (.ident "x")]) 0)], none⟩]⟩, ()⟩).1 := by
  have complete : Heap.Complete
      ⟨#[⟨[("f", .fn ["x"] (.block [.exprStmt (.ident "x")]) 0)], none⟩]⟩ := by
    intro id name value bound
    cases bound.of_single
    refine .leaf ?_ rfl
    have statement : (Node.exprStmt (.ident "x")).Complete :=
      .intro nofun nofun (List.forall_mem_singleton.mpr (.intro nofun nofun nofun nofun)) nofun
    exact .intro nofun nofun (List.forall_mem_singleton.mpr statement) nofun
  have parsed : Node.parse 9 "f - true" =
      .ok (.program [.exprStmt (.binary (.ident "f") .minus (.bool true))]) := by
    cbv
  refine ⟨complete, parsed, by cbv, fun limit => ?_⟩
  exact ((parsed_code_only_overflows _ complete).1 9 _ _ parsed limit 0).2.1

end Capuchin
