import Capuchin.Proofs.Evaluate.Contract
import Capuchin.Proofs.Limit.Evaluating

namespace Capuchin

open Run Evaluate

/-- From this heap, under every limit of at least `need`, the run ends with the value and leaves the
heap `later`. -/
def Delivers (run : Nat → Run σ α) (need : Nat) (heap : Heap) (value : α) (later : Heap) : Prop :=
  ∀ limit, need ≤ limit → ∀ notes, run limit ⟨heap, notes⟩ = .ok value ⟨later, notes⟩

namespace Delivers

section Sequence

variable {σ α β : Type} {run : Nat → Run σ α} {need more : Nat} {heap middle later : Heap}
  {value : α}

theorem weaken (delivered : Delivers run need heap value later) (order : need ≤ more) :
    Delivers run more heap value later :=
  fun limit room => delivered limit (Nat.le_trans order room)

theorem pure (value : α) (heap : Heap) :
    Delivers (fun _ => (Pure.pure value : Run σ α)) need heap value heap :=
  fun _ _ _ => rfl

theorem bind {next : Nat → α → Run σ β} {result : β} (first : Delivers run need heap value middle)
    (rest : Delivers (next · value) need middle result later) :
    Delivers (fun limit => run limit >>= next limit) need heap result later := by
  intro limit room notes
  simp only [Bind.bind, EStateM.bind, first limit room notes]
  exact rest limit room notes

theorem unique {other : α} {last : Heap} (one : Delivers run need heap value later)
    (two : Delivers run more heap other last) (notes : σ) : value = other := by
  have first := one (max need more) (Nat.le_max_left need more) notes
  rw [two (max need more) (Nat.le_max_right need more) notes] at first
  cases first
  rfl

end Sequence

section Values

variable {σ : Type} {run : Nat → Run σ Value} {next : Nat → Value → Run σ Value} {need : Nat}
  {heap middle later : Heap} {value result : Value}

/-- A value that stops nothing is handed on. -/
theorem andThen (first : Delivers run need heap value middle) (plain : value.stops = false)
    (rest : Delivers (next · value) need middle result later) :
    Delivers (fun limit => Run.andThen (run limit) (next limit)) need heap result later := by
  refine first.bind ?_
  cases value with
  | error kind message => cases plain
  | _ => exact rest

/-- What would follow an error is not run. -/
theorem andThen_error (first : Delivers run need heap (.error kind message) later) :
    Delivers (fun limit => Run.andThen (run limit) (next limit)) need heap (.error kind message)
      later :=
  first.bind (.pure _ _)

theorem unwrap (first : Delivers run need heap value later) :
    Delivers (fun limit => do return (← run limit).unwrap) need heap value.unwrap later :=
  first.bind (.pure _ _)

/-- A complaint becomes an error as soon as its message can be written. -/
theorem settle {outcome : Except Complaint Value}
    (settled : ∀ limit, need ≤ limit → Complaint.settle limit outcome = .ok value) :
    Delivers (fun limit => (Run.settle limit outcome : Run σ Value)) need heap value heap := by
  intro limit room notes
  simp only [Run.settle, settled limit room]
  rfl

theorem settle_ok (value : Value) (heap : Heap) :
    Delivers (fun limit => (Run.settle limit (.ok value) : Run σ Value)) need heap value heap :=
  settle fun _ _ => rfl

end Values

end Delivers

/-- Under every limit of at least `need`, evaluation of the node in the scope ends with the value and
leaves the heap `later`. -/
abbrev Gives (σ : Type) (scope : ScopeId) (node : Node) (need : Nat) (heap : Heap) (value : Value)
    (later : Heap) : Prop :=
  Delivers (fun limit => (node.eval .silent limit scope : Run σ Value)) need heap value later

namespace Gives

variable {σ : Type} {scope : ScopeId} {need : Nat} {heap middle later : Heap} {value result : Value}
  {left right : Node}

/-- A construct is evaluated one level deeper. -/
theorem eval {node : Node} (inner : Delivers (fun limit => (Evaluate.node .silent limit
      (Node.eval .silent limit) scope node : Run σ Value)) need heap value later) :
    Gives σ scope node (need + 1) heap value later := by
  intro limit room notes
  obtain ⟨limit, rfl⟩ : ∃ other, limit = other + 1 := ⟨limit - 1, by omega⟩
  exact (eval_silent limit node scope _).trans (inner limit (by omega) notes)

theorem ending {node : Node} (gives : Gives σ scope node need heap value later)
    (room : need ≤ limit) (notes : σ) :
    (node.eval .silent limit scope).ending ⟨heap, notes⟩ = (.ok value, ⟨later, notes⟩) := by
  unfold Run.ending
  rw [show node.eval .silent limit scope ⟨heap, notes⟩ = _ from gives limit room notes]

/-- Under a limit that is too low, the evaluation can only overflow. -/
theorem cut {node : Node} (gives : Gives σ scope node need heap value later) (limit : Nat)
    (notes : σ) :
    Cut .overflow ((node.eval .silent limit scope).ending ⟨heap, notes⟩).1 (.ok value) := by
  have both := eval_cuts (Nat.le_max_left limit need) silent_passive silent_passive node scope
    heap notes notes
  rw [show node.eval .silent (max limit need) scope ⟨heap, notes⟩ = _ from
    gives _ (Nat.le_max_right limit need) notes] at both
  unfold Run.ending
  generalize node.eval .silent limit scope ⟨heap, notes⟩ = outcome at both ⊢
  cases both with
  | cut => exact .inl rfl
  | ok => exact .inr rfl

theorem int (number : Int) (heap : Heap) :
    Gives σ scope (.int number) (need + 1) heap (.int number) heap :=
  eval (.pure _ _)

theorem unary (operand : Gives σ scope right need heap value later) (plain : value.stops = false)
    (applied : value.applyUnary op = .ok result) :
    Gives σ scope (.unary op right) (need + 1) heap result later := by
  refine eval (operand.andThen plain ?_)
  rw [applied]
  exact .settle_ok result later

theorem binary (first : Gives σ scope left need heap one middle) (plain : one.stops = false)
    (second : Gives σ scope right need middle two later) (calm : two.stops = false)
    (settled : ∀ limit, need ≤ limit →
      Complaint.settle limit (one.applyBinary op two) = .ok result) :
    Gives σ scope (.binary left op right) (need + 1) heap result later :=
  eval (first.andThen plain (second.andThen calm (.settle settled)))

end Gives

end Capuchin
