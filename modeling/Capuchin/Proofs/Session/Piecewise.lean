import Capuchin.Proofs.Evaluate.Contract
import Capuchin.Proofs.Grammar.Seam
import Capuchin.Proofs.Limit.Evaluating
import Capuchin.Proofs.Token.Scan
import Capuchin.Session.Basic
import Mathlib

namespace Capuchin

open Run Evaluate

namespace Session

/-- The statements, evaluated in order, end with values after which a program goes on: none is an
error or a `return`, and there is no overflow. -/
def Passes (limit : Nat) : Session → List Node → Prop
  | _, [] => True
  | session, node :: nodes =>
    (∃ value, (session.evaluate .silent limit node #[]).result = .ok value ∧
      value.stops = false) ∧
    (session.evaluate .silent limit node #[]).session.Passes limit nodes

def pass (limit : Nat) (session : Session) (nodes : List Node) : Session :=
  nodes.foldl (fun session node => (session.evaluate .silent limit node #[]).session) session

variable {session : Session} {limit : Nat} {node : Node}

theorem evaluate_scope (session : Session) (watch : Monitor Transcript) (limit : Nat)
    (node : Node) (log : Transcript) :
    (session.evaluate watch limit node log).session.scope = session.scope := by
  unfold evaluate
  split <;> rfl

theorem eval_of_evaluate (done : (session.evaluate .silent limit node #[]).result = .ok value) :
    node.eval .silent limit session.scope ⟨session.heap, #[]⟩ =
      .ok value ⟨(session.evaluate .silent limit node #[]).session.heap, (#[] : Transcript)⟩ := by
  have quiet := eval_unwatched limit node session.scope session.heap (#[] : Transcript)
  unfold evaluate at done ⊢
  unfold ending at quiet
  rw [EStateM.run] at done ⊢
  generalize node.eval .silent limit session.scope ⟨session.heap, #[]⟩ = outcome at quiet done ⊢
  cases outcome with
  | error fault world => cases done
  | ok own world =>
    have still := congrArg (·.2.notes) quiet
    cases done
    rw [← show world.notes = #[] from still]

/-- Statements that pass only lead to the state in which the others are evaluated. -/
theorem statements_pass (nodes : List Node) (passes : session.Passes limit nodes) (last : Value) :
    ∃ value, ∀ others,
      statements (Node.eval .silent limit) session.scope (nodes ++ others) last
          ⟨session.heap, #[]⟩ =
        statements (Node.eval .silent limit) session.scope others value
          ⟨(session.pass limit nodes).heap, (#[] : Transcript)⟩ := by
  induction nodes generalizing session last with
  | nil => exact ⟨last, fun _ => rfl⟩
  | cons node nodes ih =>
    obtain ⟨⟨value, done, goes⟩, rest⟩ := passes
    obtain ⟨final, lead⟩ := ih rest value
    refine ⟨final, fun others => ?_⟩
    rw [evaluate_scope] at lead
    simp only [List.cons_append, statements, Bind.bind, EStateM.bind, eval_of_evaluate done, goes]
    exact lead others

theorem evaluate_program (session : Session) (limit : Nat) (nodes : List Node) :
    session.evaluate .silent (limit + 1) (.program nodes) #[] =
      match statements (Node.eval .silent limit) session.scope nodes .null
        ⟨session.heap, #[]⟩ with
      | .ok value world => ⟨.ok value.unwrap, world.notes, { session with heap := world.heap }⟩
      | .error fault world =>
        ⟨.error (.fault fault), world.notes, { session with heap := world.heap }⟩ := by
  unfold evaluate
  rw [EStateM.run, eval_silent]
  simp only [Evaluate.node, Bind.bind, EStateM.bind]
  cases statements (Node.eval .silent limit) session.scope nodes .null ⟨session.heap, #[]⟩ <;> rfl

theorem evaluate_pass (first second : List Node) (passes : session.Passes limit first)
    (some : second ≠ []) :
    session.evaluate .silent (limit + 1) (.program (first ++ second)) #[] =
      (session.evaluate .silent (limit + 1) (.program first) #[]).session.evaluate .silent
        (limit + 1) (.program second) #[] := by
  obtain ⟨value, lead⟩ := statements_pass first passes .null
  have between : (session.evaluate .silent (limit + 1) (.program first) #[]).session =
      { session with heap := (session.pass limit first).heap } := by
    have alone := lead []
    rw [List.append_nil] at alone
    rw [evaluate_program, alone]
    rfl
  rw [between, evaluate_program, evaluate_program, lead second]
  cases second with
  | nil => exact absurd rfl some
  | cons node nodes => rfl

end Session

section Seam

variable {limit : Nat} {one : String} {tokens : List Token}
  (ends : Token.ofSource one = tokens ++ [Token.mark .semicolon, .eof])

include ends

theorem ofSource_seam (two : String) : Token.ofSource (one ++ "\n" ++ two) =
    tokens ++ [Token.mark .semicolon] ++ Token.ofSource two := by
  have line : Token.Seals (one.toList ++ ['\n']) (tokens ++ [Token.mark .semicolon] ++ []) :=
    (Token.seals_of_mark (c := ';') rfl ends).append (.blank rfl)
  have all := line two.toList
  rw [List.append_nil] at all
  simpa [Token.ofSource] using all

theorem parse_seam (parsed : Node.parse limit one = .ok tree) :
    ∃ first, tree = .program first ∧ ∀ two,
      (∀ rejection, Node.parse limit two = .error rejection →
        Node.parse limit (one ++ "\n" ++ two) = .error rejection) ∧
      ∀ other, Node.parse limit two = .ok other → ∃ second, other = .program second ∧
        Node.parse limit (one ++ "\n" ++ two) = .ok (.program (first ++ second)) := by
  have only : Token.eof ∉ tokens := by
    have last : Token.scan one.toList = tokens ++ [Token.mark .semicolon] ++ [Token.eof] := by
      rw [List.append_assoc]
      exact ends
    exact fun member => Token.eof_notMem_of_scan last (by simp [member])
  rw [Node.parse, ends] at parsed
  obtain ⟨first, rfl, seam⟩ := Grammar.ofTokens_seam only parsed
  refine ⟨first, rfl, fun two => ?_⟩
  obtain ⟨rejects, reads⟩ := seam (Token.ofSource two)
  simp only [Node.parse, ofSource_seam ends]
  refine ⟨rejects, fun other read => ?_⟩
  obtain ⟨second, rfl, _⟩ := Grammar.feedAll_of_ofTokens read
  exact ⟨second, rfl, reads second read⟩

end Seam

/-- A source that ends with a semicolon, and another one on the next line: the whole is rejected
as the second source is, and otherwise has the statements of both; and if the second has any, then
running the whole is running one after the other, wherever the statements of the first pass. -/
theorem sources_run_piecewise (limit : Nat) (one : String) (tree : Node) (tokens : List Token)
    (parsed : Node.parse limit one = .ok tree)
    (ends : Token.ofSource one = tokens ++ [Token.mark .semicolon, .eof]) :
    ∃ first, tree = .program first ∧
      (∀ two rejection, Node.parse limit two = .error rejection →
        Node.parse limit (one ++ "\n" ++ two) = .error rejection) ∧
      ∀ two other, Node.parse limit two = .ok other → ∃ second, other = .program second ∧
        Node.parse limit (one ++ "\n" ++ two) = .ok (.program (first ++ second)) ∧
        ∀ session : Session, session.Passes (limit - 1) first → second ≠ [] →
          session.run limit (one ++ "\n" ++ two) =
            (session.run limit one).session.run limit two := by
  obtain ⟨first, rfl, seam⟩ := parse_seam ends parsed
  refine ⟨first, rfl, fun two => (seam two).1, fun two other read => ?_⟩
  obtain ⟨second, rfl, whole⟩ := (seam two).2 other read
  refine ⟨second, rfl, whole, fun session passes some => ?_⟩
  simp only [Session.run, whole, parsed, read]
  cases limit with
  | zero => rfl
  | succ limit => exact Session.evaluate_pass first second passes some

/-- A `let` on one line and its use on the next. -/
theorem sources_run_piecewise_let :
    Node.parse 9 "let a = true;" = .ok (.program [.letStmt "a" (.bool true)]) ∧
    Session.fresh.Passes 8 [.letStmt "a" (.bool true)] ∧
    Session.fresh.run 9 ("let a = true;" ++ "\n" ++ "!a") =
      (Session.fresh.run 9 "let a = true;").session.run 9 "!a" ∧
    ((Session.fresh.run 9 "let a = true;").session.run 9 "!a").result = .ok (.bool false) := by
  have parsed : Node.parse 9 "let a = true;" = .ok (.program [.letStmt "a" (.bool true)]) := by
    cbv
  have ends : Token.ofSource "let a = true;" = [Token.keyword .letWord, .ident "a", .mark .assign,
      .keyword .trueWord] ++ [Token.mark .semicolon, .eof] := by
    cbv
  have read : Node.parse 9 "!a" = .ok (.program [.exprStmt (.unary .bang (.ident "a"))]) := by
    cbv
  have passes : Session.fresh.Passes 8 [.letStmt "a" (.bool true)] :=
    ⟨⟨.null, rfl, rfl⟩, trivial⟩
  obtain ⟨_, ⟨⟩, _, whole⟩ := sources_run_piecewise 9 _ _ _ parsed ends
  obtain ⟨_, ⟨⟩, _, runs⟩ := whole "!a" _ read
  exact ⟨parsed, passes, runs .fresh passes (List.cons_ne_nil _ _), by cbv⟩

end Capuchin
