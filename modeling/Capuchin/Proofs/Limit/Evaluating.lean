import Capuchin.Evaluate.Basic
import Capuchin.Proofs.Evaluate.Pace

namespace Capuchin

namespace Run

variable {σ τ α : Type}

/-- The first result was cut off, or the second is the same up to the notes. -/
inductive Parallel :
    EStateM.Result Fault (World σ) α → EStateM.Result Fault (World τ) α → Prop where
  | cut : Parallel (.error .overflow world) result
  | ok : Parallel (.ok value ⟨heap, notes⟩) (.ok value ⟨heap, marks⟩)
  | error : Parallel (.error fault ⟨heap, notes⟩) (.error fault ⟨heap, marks⟩)

def Cuts (first : Run σ α) (second : Run τ α) : Prop :=
  ∀ heap notes marks, Parallel (first ⟨heap, notes⟩) (second ⟨heap, marks⟩)

end Run

section Passive

variable {σ τ : Type} {watch : Monitor σ} {other : Monitor τ}

def Pace.unstopped (early : Fault → Prop) (passive : watch.Passive) (alsoPassive : other.Passive) :
    Pace watch other :=
  .levelled early (fun _ _ => True) alsoPassive fun limit _ event notes _ _ _ _ =>
    .inl ((passive event notes).imp fun _ told => ⟨told limit, trivial⟩)

theorem eval_cuts (order : limit ≤ more) (passive : watch.Passive) (alsoPassive : other.Passive)
    (node : Node) (scope : ScopeId) :
    Run.Cuts (Node.eval watch limit node scope) (Node.eval other more node scope) := by
  have spans : (Pace.unstopped (· = .overflow) passive alsoPassive).Spans limit more :=
    ⟨order, fun _ => rfl⟩
  intro heap notes marks
  have both := (Pace.keeps_eval spans node scope).abreast heap notes marks trivial
  unfold Run.ending at both
  generalize node.eval watch limit scope ⟨heap, notes⟩ = one at both ⊢
  generalize node.eval other more scope ⟨heap, marks⟩ = two at both ⊢
  cases one <;> cases two <;> cases both
  · exact .ok
  · cases ‹_ = Fault.overflow›
    exact .cut
  · exact .error
  · cases ‹_ = Fault.overflow›
    exact .cut

theorem eval_passive (passive : watch.Passive) (alsoPassive : other.Passive) (limit : Nat)
    (node : Node) (scope : ScopeId) (heap : Heap) (notes : σ) (marks : τ) :
    ((node.eval watch limit scope).ending ⟨heap, notes⟩).1 =
      ((node.eval other limit scope).ending ⟨heap, marks⟩).1 ∧
    (node.eval watch limit scope).heapAfter ⟨heap, notes⟩ =
      (node.eval other limit scope).heapAfter ⟨heap, marks⟩ := by
  have spans : (Pace.unstopped (fun _ => False) passive alsoPassive).Spans limit limit := .refl limit
  have both := (Pace.keeps_eval spans node scope).abreast heap notes marks trivial
  unfold Run.heapAfter
  generalize (node.eval watch limit scope).ending ⟨heap, notes⟩ = one at both ⊢
  generalize (node.eval other limit scope).ending ⟨heap, marks⟩ = two at both ⊢
  cases both with
  | same => exact ⟨rfl, rfl⟩
  | early never => cases never

end Passive

/-- Where nobody watches, the notes stay as they are and have no part in the run. -/
theorem eval_unwatched (limit : Nat) (node : Node) (scope : ScopeId) (heap : Heap) (notes : σ) :
    (node.eval .silent limit scope).ending ⟨heap, notes⟩ =
      (((node.eval .silent limit scope).ending ⟨heap, ()⟩).1,
        ⟨(node.eval .silent limit scope).heapAfter ⟨heap, ()⟩, notes⟩) := by
  let pace : Pace (Monitor.silent : Monitor σ) (Monitor.silent : Monitor Unit) :=
    .levelled (fun _ => False) (fun written _ => written = notes) silent_passive
      fun _ _ _ _ _ _ still _ => .inl ⟨notes, congrArg _ still, rfl⟩
  have spans : pace.Spans limit limit := .refl limit
  have both := (Pace.keeps_eval spans node scope).abreast heap notes () rfl
  unfold Run.heapAfter
  generalize (node.eval Monitor.silent limit scope).ending ⟨heap, notes⟩ = one at both ⊢
  generalize (node.eval Monitor.silent limit scope).ending ⟨heap, ()⟩ = two at both ⊢
  cases both with
  | same still =>
    cases still
    rfl
  | early never => cases never

end Capuchin
