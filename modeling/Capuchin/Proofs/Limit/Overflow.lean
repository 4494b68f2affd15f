import Capuchin.Proofs.Evaluate.FirstError
import Capuchin.Proofs.Limit.Reading
import Mathlib

namespace Capuchin

def Event.changes : Event → Bool
  | .create _ _ | .write _ _ _ => true
  | .enter _ _ | .leave _ | .call _ _ => false

/-- The scopes that an evaluation makes and the bindings that it writes, one after the other. -/
def Node.changes (limit : Nat) (node : Node) (scope : ScopeId) (heap : Heap) : List Event :=
  (node.events limit scope heap).filter Event.changes

section Limits

variable {limit more : Nat} (order : limit ≤ more)

include order

theorem eval_finished {watch : Monitor σ} (passive : watch.Passive) (node : Node) (scope : ScopeId)
    (world : World σ) (finished : ((node.eval watch limit scope).ending world).1 ≠ .error .overflow) :
    (node.eval watch more scope).ending world = (node.eval watch limit scope).ending world := by
  let pace : Pace watch watch := .levelled (· = .overflow) (· = ·) passive <| by
    rintro limit more event notes _ later rfl passes
    obtain ⟨next, always⟩ := passive event notes
    cases passes.symm.trans (always more)
    exact .inl ⟨later, always limit, rfl⟩
  have spans : pace.Spans limit more := ⟨order, fun _ => rfl⟩
  have both := (Pace.keeps_eval spans node scope).abreast world.heap world.notes world.notes rfl
  generalize (node.eval watch limit scope).ending world = one at both finished ⊢
  generalize (node.eval watch more scope).ending world = two at both ⊢
  cases both with
  | same level =>
    cases level
    rfl
  | early stops => exact absurd (congrArg Except.error stops) finished

theorem events_initial (node : Node) (scope : ScopeId) (heap : Heap) :
    node.events limit scope heap <+: node.events more scope heap := by
  let pace : Pace Monitor.recorder Monitor.recorder :=
    { early fault := fault = .overflow
      level notes marks := notes = marks
      ahead before after := before <+: after
      refl := List.prefix_refl _
      trans first second := first.trans second
      goes _ event events := ⟨events ++ [event], rfl, List.prefix_append events [event]⟩
      told _ _ same passes := .inl ⟨_, same ▸ passes, rfl⟩ }
  have spans : pace.Spans limit more := ⟨order, fun _ => rfl⟩
  have both := (Pace.keeps_eval spans node scope).abreast heap [] [] rfl
  unfold Node.events
  generalize (node.eval Monitor.recorder limit scope).ending ⟨heap, []⟩ = one at both ⊢
  generalize (node.eval Monitor.recorder more scope).ending ⟨heap, []⟩ = two at both ⊢
  cases both with
  | same level =>
    cases level
    exact List.prefix_refl _
  | early _ level ahead =>
    cases level
    exact ahead

end Limits

theorem Heap.replay_changes (heap : Heap) (events : List Event) :
    heap.replay (events.filter Event.changes) = heap.replay events := by
  induction events generalizing heap with
  | nil => rfl
  | cons event events ih => cases event <;> exact ih _

/-- However an evaluation ends, it leaves the heap with its changes made, in order. -/
theorem heapAfter_eq_replay (limit : Nat) (node : Node) (scope : ScopeId) (heap : Heap) :
    (node.eval Monitor.silent limit scope).heapAfter ⟨heap, ()⟩ =
      heap.replay (node.changes limit scope heap) := by
  have calm : Calm heap ⟨heap, []⟩ := ⟨rfl, by simp⟩
  have holds : (Contract.firstError heap).Holds (node.eval .recorder limit scope) :=
    eval_firstError node scope
  have held := holds ⟨heap, []⟩ calm
  rw [(eval_passive silent_passive recorder_passive limit node scope heap () []).2, Node.changes,
    Heap.replay_changes]
  unfold Node.events Run.heapAfter Run.ending
  generalize node.eval .recorder limit scope ⟨heap, []⟩ = outcome at held ⊢
  cases outcome with
  | error fault world => exact Calm.replayed held
  | ok value world =>
    cases value with
    | error kind message => exact Failed.replayed held
    | _ => exact Calm.replayed held

/-- Under a higher limit, what does not overflow is the same: the tree of a source or why it is
rejected, the text of a tree or of a value, and how an evaluation ends, with the heap it leaves and
what a monitor has noted that never stops it and is the same at all depths. -/
theorem limit_decides_overflow_only {limit more : Nat} (order : limit ≤ more) :
    (∀ source, Node.parse limit source ≠ .error .overflow →
      Node.parse more source = Node.parse limit source) ∧
    (∀ node : Node, node.render limit ≠ .error .overflow → node.render more = node.render limit) ∧
    (∀ value : Value, value.inspect limit ≠ .error .overflow →
      value.inspect more = value.inspect limit) ∧
    ∀ (σ : Type) (watch : Monitor σ), watch.Passive → ∀ (node : Node) (scope : ScopeId) world,
      ((node.eval watch limit scope).ending world).1 ≠ .error .overflow →
        (node.eval watch more scope).ending world = (node.eval watch limit scope).ending world := by
  refine ⟨?_, ?_, ?_, ?_⟩
  · intro source finished
    exact ((Parse.ofTokens_cut order (Token.ofSource source)).eq finished).symm
  · intro node finished
    exact ((node.render_cut order).eq finished).symm
  · intro value finished
    exact ((value.inspect_cut order).eq finished).symm
  · intro σ watch passive node scope world finished
    exact eval_finished order passive node scope world finished

/-- The message about `f - true` displays the function, which takes one level more than there is
under a limit of 4. Under a limit of 5 it is as under every higher limit. -/
theorem limit_decides_overflow_only_message :
    ((Node.eval Monitor.silent 4 (.binary (.ident "f") .minus (.bool true)) 0).ending
        ⟨⟨#[⟨[("f", .fn ["x"] (.block [.exprStmt (.ident "x")]) 0)], none⟩]⟩, ()⟩).1 =
      .error .overflow ∧
    (Node.eval Monitor.silent 500 (.binary (.ident "f") .minus (.bool true)) 0).ending
        ⟨⟨#[⟨[("f", .fn ["x"] (.block [.exprStmt (.ident "x")]) 0)], none⟩]⟩, ()⟩ =
      (.ok (.error .typeMismatch "Type mismatch: fn(x) \x7b x; \x7d - true"),
        ⟨⟨#[⟨[("f", .fn ["x"] (.block [.exprStmt (.ident "x")]) 0)], none⟩]⟩, ()⟩) := by
  have enough : (Node.eval Monitor.silent 5 (.binary (.ident "f") .minus (.bool true)) 0).ending
        ⟨⟨#[⟨[("f", .fn ["x"] (.block [.exprStmt (.ident "x")]) 0)], none⟩]⟩, ()⟩ =
      (.ok (.error .typeMismatch "Type mismatch: fn(x) \x7b x; \x7d - true"),
        ⟨⟨#[⟨[("f", .fn ["x"] (.block [.exprStmt (.ident "x")]) 0)], none⟩]⟩, ()⟩) := by
    cbv
  refine ⟨by cbv, ?_⟩
  have order : 5 ≤ 500 := by decide
  rw [(limit_decides_overflow_only order).2.2.2 Unit .silent silent_passive _ 0 _ ?_]
  · exact enough
  · rw [enough]
    intro overflowed
    cases overflowed

end Capuchin
