import Capuchin.Proofs.Evaluate.FirstError
import Capuchin.Proofs.Evaluate.Regime
import Mathlib

namespace Capuchin

mutual

/-- Every `return` stands where only statements can meet it; one may stand right here if the mark
says so. The body of a function starts anew. -/
def Node.disciplined (out : Bool) : Node → Bool
  | .absent | .ident _ | .int _ | .str _ | .bool _ => true
  | .program nodes | .block nodes => Node.disciplinedAll out nodes
  | .exprStmt part => part.disciplined out
  | .returnStmt part => out && part.disciplined false
  | .letStmt _ part | .unary _ part => part.disciplined false
  | .array nodes => Node.disciplinedAll false nodes
  | .hash entries => Node.disciplinedPairs entries
  | .fn _ body => body.disciplined true
  | .binary left _ right | .index left right => left.disciplined false && right.disciplined false
  | .call callee args => callee.disciplined false && Node.disciplinedAll false args
  | .ifThen condition consequence => condition.disciplined false && consequence.disciplined out
  | .ifElse condition consequence alternative =>
    condition.disciplined false && consequence.disciplined out && alternative.disciplined out

def Node.disciplinedAll (out : Bool) : List Node → Bool
  | [] => true
  | node :: nodes => node.disciplined out && Node.disciplinedAll out nodes

def Node.disciplinedPairs : List (Node × Node) → Bool
  | [] => true
  | (key, value) :: entries =>
    key.disciplined false && value.disciplined false && Node.disciplinedPairs entries

end

/-- Neither a `return` nor one inside, at any depth. -/
def Value.ReturnFree (value : Value) : Prop :=
  value.Throughout fun part => part.shape ≠ .returned

/-- All functions in the value, at any depth, have disciplined bodies. -/
def Value.Disciplined (value : Value) : Prop :=
  value.Throughout (Value.BodyIs fun body => body.disciplined true = true)

/-- No `return` is stored at any depth, and all stored functions have disciplined bodies. -/
def Heap.Disciplined (heap : Heap) : Prop :=
  ∀ id name value, heap.Binds id name value → value.ReturnFree ∧ value.Disciplined

/-- What may happen while these nodes are under evaluation, innermost first: nothing is bound,
passed or ended with that has a `return` in it, but that a statement, a block or an if-expression
that has a `return` of its own to give may end with that. -/
def Event.ReturnFree (opened : List Node) : Event → Prop
  | .enter _ _ | .create _ _ => True
  | .write _ _ value => value.ReturnFree
  | .call callee args => callee.ReturnFree ∧ ∀ arg ∈ args, arg.ReturnFree
  | .leave value => value.ReturnFree ∨ ∃ node inner, opened.head? = some node ∧
      node.leaks = true ∧ node.disciplined false = false ∧
      value = .returned inner ∧ inner.ReturnFree

section Discipline

variable {out : Bool} {node part : Node}

theorem disciplinedAll_iff (out : Bool) (nodes : List Node) :
    Node.disciplinedAll out nodes = true ↔ ∀ node ∈ nodes, node.disciplined out = true := by
  induction nodes with
  | nil => simp [Node.disciplinedAll]
  | cons node nodes ih => simp [Node.disciplinedAll, ih]

theorem disciplinedPairs_iff (entries : List (Node × Node)) :
    Node.disciplinedPairs entries = true ↔
      ∀ pair ∈ entries, pair.1.disciplined false = true ∧ pair.2.disciplined false = true := by
  induction entries with
  | nil => simp [Node.disciplinedPairs]
  | cons pair entries ih => simp [Node.disciplinedPairs, ih, and_assoc]

theorem disciplined_operand (disciplined : node.disciplined out = true)
    (member : part ∈ node.operands) : part.disciplined false = true := by
  cases node with
  | hash entries =>
    obtain ⟨pair, among, found⟩ := List.mem_flatMap.mp member
    have both := (disciplinedPairs_iff entries).mp disciplined pair among
    rcases List.mem_pair.mp found with rfl | rfl
    · exact both.1
    · exact both.2
  | array nodes => exact (disciplinedAll_iff false nodes).mp disciplined part member
  | _ =>
    simp [Node.disciplined, Node.operands, disciplinedAll_iff] at disciplined member <;> grind

theorem disciplined_outlet (disciplined : node.disciplined out = true)
    (member : part ∈ node.outlets) : part.disciplined out = true := by
  cases node <;>
    simp [Node.disciplined, Node.outlets, disciplinedAll_iff] at disciplined member <;> grind

end Discipline

/-- Only disciplined nodes are evaluated and no `return` is stored; any fault may stop the run. -/
def Regime.disciplined : Regime where
  admits out node := node.disciplined out = true
  holds value := value.shape ≠ .returned ∧ value.BodyIs fun body => body.disciplined true = true
  blames _ := True
  admits_operand := disciplined_operand
  admits_outlet := disciplined_outlet
  admits_body held := held.2
  holds_fn disciplined := ⟨by simp [Value.shape], disciplined⟩
  holds_returned disciplined := by simp [Node.disciplined] at disciplined
  holds_other other plain := ⟨plain, Value.bodyIs_of_shape other⟩
  blames_overflow := trivial
  blames_inspect _ _ := trivial

namespace Regime

variable {value : Value} {heap : Heap}

theorem disciplined_allows : disciplined.Allows value ↔ value.ReturnFree ∧ value.Disciplined :=
  ⟨fun allowed => ⟨allowed.mono fun _ held => held.1, allowed.mono fun _ held => held.2⟩,
    fun both => both.1.and both.2⟩

theorem disciplined_kept : disciplined.Kept heap ↔ heap.Disciplined := by
  simp only [Kept, Heap.Disciplined, disciplined_allows]

theorem Tells.returnFree (tells : disciplined.Tells opened event) : event.ReturnFree opened := by
  cases event with
  | enter node scope => trivial
  | create scope outer => trivial
  | write scope name value => exact (disciplined_allows.mp tells).1
  | call callee args =>
    exact ⟨(disciplined_allows.mp tells.1).1, fun arg member =>
      (disciplined_allows.mp (tells.2 arg member)).1⟩
  | leave value =>
    obtain ⟨node, innermost, fits⟩ := tells
    cases strict : node.disciplined false with
    | true => exact .inl (disciplined_allows.mp (fits.strict strict)).1
    | false =>
      rcases fits.yields with allowed | ⟨leaks, inner, rfl, allowed⟩
      · exact .inl (disciplined_allows.mp allowed).1
      · exact .inr ⟨node, inner, innermost, leaks, strict, rfl, (disciplined_allows.mp allowed).1⟩

end Regime

/-- A disciplined program, run where no `return` is stored and all functions are disciplined,
keeps it so, however it ends, and its value has no `return` in it. In the course of it no `return`
is bound, passed to a function or put inside another value, and no call ends with one. -/
theorem returns_never_escape (heap : Heap) (kept : heap.Disciplined) (statements : List Node)
    (disciplined : (Node.program statements).disciplined true = true)
    (limit : Nat) (scope : ScopeId) :
    (∀ (σ : Type) (watch : Monitor σ) notes,
      (((Node.program statements).eval watch limit scope).heapAfter ⟨heap, notes⟩).Disciplined ∧
      ∀ value, (((Node.program statements).eval watch limit scope).ending ⟨heap, notes⟩).1 =
        .ok value → value.ReturnFree ∧ value.Disciplined) ∧
    (∀ earlier event later,
      (Node.program statements).events limit scope heap = earlier ++ event :: later →
        event.ReturnFree (Event.openedBy earlier)) ∧
    ∀ earlier callee args around value later,
      (Node.program statements).events limit scope heap = earlier ++ Event.leave value :: later →
        Event.openedBy earlier = .call callee args :: around → value.ReturnFree := by
  have started := Regime.disciplined_kept.mpr kept
  have admitted : Regime.disciplined.admits true (.program statements) := disciplined
  have told (earlier : List Event) (event : Event) (later : List Event)
      (split : (Node.program statements).events limit scope heap = earlier ++ event :: later) :
      event.ReturnFree (Event.openedBy earlier) := by
    have noted : (Regime.Audit.record .disciplined).good [] [] := ⟨rfl, by simp⟩
    obtain ⟨_, _, _, ended, _, ⟨_, _, good⟩, _⟩ :=
      (Regime.Audit.record .disciplined).eval_ending started noted admitted limit scope
    unfold Node.events at split
    rw [ended] at split
    exact (good earlier event later split).returnFree
  refine ⟨fun σ watch notes => ?_, told, ?_⟩
  · have noted : (Regime.Audit.none .disciplined watch fun _ _ => trivial).good [] notes := trivial
    obtain ⟨result, later, _, ended, after, _, yields, _⟩ :=
      Regime.Audit.eval_ending _ started noted admitted limit scope
    unfold Run.heapAfter
    rw [ended]
    refine ⟨Regime.disciplined_kept.mp after, fun value done => ?_⟩
    exact Regime.disciplined_allows.mp (yields value done).allows
  · intro earlier callee args around value later split innermost
    rcases told earlier (.leave value) later split with free | ⟨node, _, opened, leaks, _⟩
    · exact free
    · rw [innermost] at opened
      cases opened
      cases leaks

/-- The program `let a = f(true); if (true) { return a; }` with a function that returns early:
the array is bound and given without a `return` around it. -/
theorem returns_never_escape_early :
    Heap.Disciplined ⟨#[⟨[("f", .fn ["x"] (.block [.exprStmt (.ifThen (.ident "x")
      (.block [.returnStmt (.array [.int 1])])), .exprStmt (.int 2)]) 0)], none⟩]⟩ ∧
    (Node.program [.letStmt "a" (.call (.ident "f") [.bool true]), .exprStmt (.ifThen (.bool true)
      (.block [.returnStmt (.ident "a")]))]).disciplined true = true ∧
    ((Node.eval Monitor.silent 16 (.program [.letStmt "a" (.call (.ident "f") [.bool true]),
      .exprStmt (.ifThen (.bool true) (.block [.returnStmt (.ident "a")]))]) 0).ending
      ⟨⟨#[⟨[("f", .fn ["x"] (.block [.exprStmt (.ifThen (.ident "x")
        (.block [.returnStmt (.array [.int 1])])), .exprStmt (.int 2)]) 0)], none⟩]⟩, ()⟩).1 =
      .ok (.array [.int 1]) ∧
    (Value.array [.int 1]).ReturnFree := by
  have kept : Heap.Disciplined ⟨#[⟨[("f", .fn ["x"] (.block [.exprStmt (.ifThen (.ident "x")
      (.block [.returnStmt (.array [.int 1])])), .exprStmt (.int 2)]) 0)], none⟩]⟩ := by
    intro id name value bound
    cases bound.of_single
    exact ⟨.leaf (by decide) rfl, .leaf rfl rfl⟩
  have disciplined : (Node.program [.letStmt "a" (.call (.ident "f") [.bool true]),
      .exprStmt (.ifThen (.bool true) (.block [.returnStmt (.ident "a")]))]).disciplined true =
      true := by
    rfl
  have ended : ((Node.eval Monitor.silent 16 (.program [.letStmt "a" (.call (.ident "f")
      [.bool true]), .exprStmt (.ifThen (.bool true) (.block [.returnStmt (.ident "a")]))])
      0).ending ⟨⟨#[⟨[("f", .fn ["x"] (.block [.exprStmt (.ifThen (.ident "x")
        (.block [.returnStmt (.array [.int 1])])), .exprStmt (.int 2)]) 0)], none⟩]⟩, ()⟩).1 =
      .ok (.array [.int 1]) := by
    cbv
  have free := ((returns_never_escape _ kept _ disciplined 16 0).1 Unit .silent ()).2 _ ended
  exact ⟨kept, disciplined, ended, free.1⟩

/-- As an element of an array the `return` is stored, and such a program is not disciplined. -/
example : (Node.program [.exprStmt (.array [.ifThen (.bool true)
      (.block [.returnStmt (.int 1)])])]).disciplined true = false ∧
    ((Node.eval Monitor.silent 9 (.program [.exprStmt (.array [.ifThen (.bool true)
      (.block [.returnStmt (.int 1)])])]) 0).ending ⟨⟨#[⟨[], none⟩]⟩, ()⟩).1 =
      .ok (.array [.returned (.int 1)]) := by
  exact ⟨rfl, rfl⟩

end Capuchin
