import Capuchin.Proofs.Limit.Overflow
import Capuchin.Proofs.Session.Later
import Capuchin.Session.Report
import Mathlib

namespace Capuchin

theorem Session.reportAll_overflow {heap : Heap} {scope : ScopeId} {manner : Manner}
    (quiet : manner.debug = false)
    (parsed : Node.parse manner.limit source = .ok tree)
    (overflowed : ((tree.eval Monitor.silent manner.limit scope).ending ⟨heap, ()⟩).1 =
      .error .overflow) (sources : List String) :
    let later : Session := ⟨(tree.eval Monitor.silent manner.limit scope).heapAfter ⟨heap, ()⟩, scope⟩
    Session.reportAll ⟨heap, scope⟩ manner (source :: sources) =
      ⟨.diagnosed, #[.diagnostic Fault.overflow.message], later⟩ :: later.reportAll manner sources := by
  have ended := eval_unwatched manner.limit tree scope heap (#[] : Transcript)
  rw [overflowed] at ended
  have run : Session.report ⟨heap, scope⟩ manner source =
      ⟨.diagnosed, #[.diagnostic Fault.overflow.message],
        ⟨(tree.eval Monitor.silent manner.limit scope).heapAfter ⟨heap, ()⟩, scope⟩⟩ := by
    simp only [report, quiet, Bool.false_eq_true, if_false, Session.run, parsed]
    rw [evaluate_eq ended]
    rfl
  simp only [reportAll, run, Report.escape?]

/-- An evaluation that overflows has made the first of the changes that it makes under a higher
limit, and leaves the heap with these changes and no others. As a source of a session it is
diagnosed, and the sources after it are run on that heap. -/
theorem overflow_leaves_first_changes {limit more : Nat} (order : limit ≤ more) (node : Node)
    (scope : ScopeId) (heap : Heap)
    (overflowed : ((node.eval Monitor.silent limit scope).ending ⟨heap, ()⟩).1 =
      .error .overflow) :
    node.changes limit scope heap <+: node.changes more scope heap ∧
    (node.eval Monitor.silent limit scope).heapAfter ⟨heap, ()⟩ =
      heap.replay (node.changes limit scope heap) ∧
    (node.eval Monitor.silent more scope).heapAfter ⟨heap, ()⟩ =
      heap.replay (node.changes more scope heap) ∧
    ∀ source, Node.parse limit source = .ok node → ∀ display sources,
      let later : Session := ⟨heap.replay (node.changes limit scope heap), scope⟩
      Session.reportAll ⟨heap, scope⟩ ⟨limit, false, display⟩ (source :: sources) =
        ⟨.diagnosed, #[.diagnostic "maximum recursion depth exceeded"], later⟩ ::
          later.reportAll ⟨limit, false, display⟩ sources := by
  refine ⟨?_, heapAfter_eq_replay limit node scope heap, heapAfter_eq_replay more node scope heap, ?_⟩
  · exact (events_initial order node scope heap).filter Event.changes
  · intro source parsed display sources
    rw [← heapAfter_eq_replay]
    exact Session.reportAll_overflow rfl parsed overflowed sources

/-- The source `let a = true; f(a)` for a function that calls itself without end. Under a limit of 5
the first call is made and the second is not; under a limit of 8 both are. The next source finds the
variable bound. -/
theorem overflow_leaves_first_changes_recursion :
    ((Node.eval Monitor.silent 5 (.program [.letStmt "a" (.bool true),
        .exprStmt (.call (.ident "f") [.ident "a"])]) 0).ending
      ⟨⟨#[⟨[("f", .fn ["x"] (.block [.exprStmt (.call (.ident "f") [.ident "x"])]) 0)], none⟩]⟩,
        ()⟩).1 = .error .overflow ∧
    Node.parse 5 "let a = true; f(a)" = .ok (.program [.letStmt "a" (.bool true),
      .exprStmt (.call (.ident "f") [.ident "a"])]) ∧
    [Event.write 0 "a" (.bool true), .create 1 0, .write 1 "x" (.bool true)] <+:
      Node.changes 8 (.program [.letStmt "a" (.bool true),
          .exprStmt (.call (.ident "f") [.ident "a"])]) 0
        ⟨#[⟨[("f", .fn ["x"] (.block [.exprStmt (.call (.ident "f") [.ident "x"])]) 0)], none⟩]⟩ ∧
    (Session.reportAll
      ⟨⟨#[⟨[("f", .fn ["x"] (.block [.exprStmt (.call (.ident "f") [.ident "x"])]) 0)], none⟩]⟩, 0⟩
      ⟨5, false, .every⟩ ["let a = true; f(a)", "a"]).map Report.transcript =
      [#[.diagnostic "maximum recursion depth exceeded"], #[.shown "true"]] := by
  have overflowed : ((Node.eval Monitor.silent 5 (.program [.letStmt "a" (.bool true),
        .exprStmt (.call (.ident "f") [.ident "a"])]) 0).ending
      ⟨⟨#[⟨[("f", .fn ["x"] (.block [.exprStmt (.call (.ident "f") [.ident "x"])]) 0)], none⟩]⟩,
        ()⟩).1 = .error .overflow := by
    cbv
  have made : Node.changes 5 (.program [.letStmt "a" (.bool true),
        .exprStmt (.call (.ident "f") [.ident "a"])]) 0
      ⟨#[⟨[("f", .fn ["x"] (.block [.exprStmt (.call (.ident "f") [.ident "x"])]) 0)], none⟩]⟩ =
      [.write 0 "a" (.bool true), .create 1 0, .write 1 "x" (.bool true)] := by
    cbv
  have parsed : Node.parse 5 "let a = true; f(a)" = .ok (.program [.letStmt "a" (.bool true),
      .exprStmt (.call (.ident "f") [.ident "a"])]) := by
    cbv
  obtain ⟨first, _, _, goesOn⟩ :=
    overflow_leaves_first_changes (show 5 ≤ 8 by decide) _ 0 _ overflowed
  rw [made] at first goesOn
  refine ⟨overflowed, parsed, first, ?_⟩
  rw [goesOn _ parsed]
  cbv

end Capuchin
