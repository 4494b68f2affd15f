import Capuchin.Evaluate.Basic

/-! Contracts of runs: what holds of the world before a run, and of its value or fault and the
world after it. A contract that treats all values alike, errors excepted, holds of a construct as
soon as it holds of the parts. -/

namespace Capuchin

/-- The parts of a node that are evaluated in the node's own scope. The body of a function is not
among them. -/
def Node.parts : Node → List Node
  | .program nodes | .block nodes | .array nodes => nodes
  | .exprStmt part | .letStmt _ part | .returnStmt part | .unary _ part => [part]
  | .hash entries => entries.flatMap fun (key, value) => [key, value]
  | .binary left _ right => [left, right]
  | .index left position => [left, position]
  | .call callee args => callee :: args
  | .ifThen condition consequence => [condition, consequence]
  | .ifElse condition consequence alternative => [condition, consequence, alternative]
  | .absent | .ident _ | .int _ | .str _ | .bool _ | .fn _ _ => []

def Node.isLet : Node → Bool
  | .letStmt _ _ => true
  | _ => false

namespace Run

variable {σ α β : Type}

/-- How a run ends, and the world it leaves. -/
def ending (run : Run σ α) (world : World σ) : Except Fault α × World σ :=
  match run world with
  | .ok value left => (.ok value, left)
  | .error fault left => (.error fault, left)

/-- The heap that is left, however a run ends. -/
def heapAfter (run : Run σ α) (world : World σ) : Heap :=
  (run.ending world).2.heap

/-- From a world as in `before` the run ends with a value and a world as in `after`, or with a
fault and a world as in `stopped`. -/
def Meets (before : World σ → Prop) (run : Run σ α) (after : α → World σ → Prop)
    (stopped : Fault → World σ → Prop) : Prop :=
  ∀ world, before world → match run world with
    | .ok value left => after value left
    | .error fault left => stopped fault left

namespace Meets

variable {before : World σ → Prop} {between after : α → World σ → Prop}
  {stopped : Fault → World σ → Prop} {run : Run σ α}

theorem pure {value : α} (holds : ∀ world, before world → after value world) :
    Meets before (pure value) after stopped :=
  fun world ready => holds world ready

theorem throw (holds : ∀ world, before world → stopped fault world) :
    Meets before (throw fault : Run σ α) after stopped :=
  fun world ready => holds world ready

theorem bind {next : α → Run σ β} {done : β → World σ → Prop}
    (first : Meets before run between stopped)
    (second : ∀ value, Meets (between value) (next value) done stopped) :
    Meets before (run >>= next) done stopped := by
  intro world ready
  have one := first world ready
  simp only [Bind.bind, EStateM.bind]
  cases ended : run world with
  | ok value left =>
    rw [ended] at one
    exact second value left one
  | error fault left =>
    rw [ended] at one
    exact one

theorem weaken {halted : Fault → World σ → Prop} (met : Meets before run between halted)
    (value : ∀ value world, between value world → after value world)
    (fault : ∀ fault world, halted fault world → stopped fault world) :
    Meets before run after stopped := by
  intro world ready
  have one := met world ready
  cases ended : run world with
  | ok result left =>
    rw [ended] at one
    exact value result left one
  | error reason left =>
    rw [ended] at one
    exact fault reason left one

/-- A monitor does not touch the heap. -/
theorem notice (holds : Heap → Prop) (watch : Observer σ) (event : Event) :
    Meets (fun world => holds world.heap) (notice watch event) (fun _ world => holds world.heap)
      fun _ world => holds world.heap := by
  intro world ready
  unfold Run.notice
  split <;> rename_i ended <;> split at ended <;> cases ended <;> exact ready

theorem heapAfter {holds : Heap → Prop} (met : Meets before run (fun _ world => holds world.heap)
    fun _ world => holds world.heap) (ready : before world) : holds (run.heapAfter world) := by
  have one := met world ready
  unfold Run.heapAfter Run.ending
  cases ended : run world with
  | ok value left =>
    rw [ended] at one
    exact one
  | error fault left =>
    rw [ended] at one
    exact one

end Meets

end Run

open Run Evaluate

/-- Evaluation that nobody watches is evaluation of the construct, one level deeper. -/
theorem eval_silent (limit : Nat) (node : Node) (scope : ScopeId) (world : World σ) :
    node.eval .silent (limit + 1) scope world =
      Evaluate.node .silent limit (Node.eval .silent limit) scope node world := by
  simp only [Node.eval, Bind.bind, EStateM.bind, Run.notice, Monitor.silent]
  cases Evaluate.node _ limit _ scope node world <;> rfl

/-- A contract that treats all values alike, errors excepted: a run may end with any value where
it may go on, and after a value that is no error it may go on. -/
structure Contract (σ : Type) where
  before : World σ → Prop
  after : Value → World σ → Prop
  stopped : Fault → World σ → Prop
  ends : ∀ value world, before world → after value world
  goesOn : ∀ value world, (∀ kind message, value ≠ .error kind message) →
    after value world → before world
  stops : ∀ fault world, before world → stopped fault world

namespace Contract

variable {σ : Type} (contract : Contract σ)

def Holds (run : Run σ Value) : Prop :=
  Meets contract.before run contract.after contract.stopped

/-- A run after which any run may go on. -/
def Keeps {α : Type} (run : Run σ α) : Prop :=
  Meets contract.before run (fun _ => contract.before) contract.stopped

variable {contract} {watch : Monitor σ} {limit : Nat} {self : Node → ScopeId → Run σ Value}
  {scope : ScopeId}

theorem Keeps.bind {first : Run σ α} {next : α → Run σ Value} (kept : contract.Keeps first)
    (rest : ∀ value, contract.Holds (next value)) : contract.Holds (first >>= next) :=
  Meets.bind kept rest

theorem Keeps.pure (value : α) : contract.Keeps (pure value) :=
  Meets.pure fun _ ready => ready

theorem Holds.pure (value : Value) : contract.Holds (pure value) :=
  Meets.pure (contract.ends value)

theorem Holds.settle (result : Except Complaint Value) : contract.Holds (settle limit result) := by
  unfold Run.settle
  split
  · exact .pure _
  · exact Meets.throw (contract.stops _)

theorem Holds.complain (complaint : Complaint) : contract.Holds (complain limit complaint) :=
  .settle _

/-- What follows a value that is no error may start where the contract lets runs go on. -/
theorem Holds.bind {first : Run σ Value} {next : Value → Run σ Value} (held : contract.Holds first)
    (error : ∀ kind message, next (.error kind message) = Pure.pure (.error kind message))
    (rest : ∀ value, contract.Holds (next value)) : contract.Holds (first >>= next) := by
  refine Meets.bind held fun value world reached => ?_
  by_cases failed : ∃ kind message, value = .error kind message
  · obtain ⟨kind, message, rfl⟩ := failed
    rw [error]
    exact reached
  · refine rest value world (contract.goesOn value world ?_ reached)
    intro kind message same
    exact failed ⟨kind, message, same⟩

theorem Holds.andThen {first : Run σ Value} {next : Value → Run σ Value}
    (held : contract.Holds first) (rest : ∀ value, contract.Holds (next value)) :
    contract.Holds (andThen first next) := by
  refine held.bind (fun _ _ => rfl) fun value => ?_
  cases value with
  | error kind message => exact .pure _
  | _ => exact rest _

theorem Holds.unwrap {first : Run σ Value} (held : contract.Holds first) :
    contract.Holds (do return (← first).unwrap) :=
  held.bind (fun _ _ => rfl) fun value => .pure value.unwrap

theorem Holds.parts {next : List Value → Run σ Value} (nodes : List Node)
    (each : ∀ node ∈ nodes, contract.Holds (self node scope))
    (rest : ∀ values, contract.Holds (next values)) :
    contract.Holds (parts self scope nodes next) := by
  induction nodes generalizing next with
  | nil => exact rest []
  | cons node nodes ih =>
    refine (each node (by simp)).andThen fun value => ?_
    refine ih (fun other member => each other (by simp [member])) fun values => ?_
    exact rest (value :: values)

theorem Holds.pairs (entries : List (Node × Node)) (table : Table Key Value)
    (keys : ∀ pair ∈ entries, contract.Holds (self pair.1 scope))
    (values : ∀ pair ∈ entries, contract.Holds (self pair.2 scope)) :
    contract.Holds (pairs limit self scope entries table) := by
  induction entries generalizing table with
  | nil => exact .pure _
  | cons pair entries ih =>
    refine (keys pair (by simp)).andThen fun key => ?_
    split
    · exact .complain _
    · refine (values pair (by simp)).andThen fun value => ?_
      exact ih _ (fun other member => keys other (by simp [member]))
        fun other member => values other (by simp [member])

theorem Holds.statements (nodes : List Node) (last : Value)
    (each : ∀ node ∈ nodes, contract.Holds (self node scope)) :
    contract.Holds (statements self scope nodes last) := by
  induction nodes generalizing last with
  | nil => exact .pure last
  | cons node nodes ih =>
    refine (each node (by simp)).bind (fun _ _ => rfl) fun value => ?_
    split
    · exact .pure value
    · exact ih value fun other member => each other (by simp [member])

theorem Keeps.bindAll (bindings : List (String × Value))
    (writes : ∀ name value, contract.Keeps (write (watch limit) scope name value)) :
    contract.Keeps (bindAll watch limit scope bindings) := by
  induction bindings with
  | nil => exact .pure ()
  | cons binding bindings ih => exact Meets.bind (writes binding.1 binding.2) fun _ => ih

theorem Holds.identifier (name : String) : contract.Holds (identifier limit scope name) := by
  have kept : contract.Keeps (find? scope name) := fun world ready => ready
  refine kept.bind fun found => ?_
  split
  · exact .pure _
  · split
    · exact .pure _
    · exact .complain _

/-- A node keeps a contract if its parts and all calls do, and its own bindings, if it makes any. -/
theorem Holds.node (node : Node) (each : ∀ part ∈ node.parts, contract.Holds (self part scope))
    (writes : node.isLet = true →
      ∀ name value, contract.Keeps (write (watch limit) scope name value))
    (calls : ∀ callee args, contract.Holds (apply watch limit self callee args)) :
    contract.Holds (Evaluate.node watch limit self scope node) := by
  cases node with
  | absent => exact .pure _
  | program nodes => exact (Holds.statements nodes .null each).unwrap
  | block nodes => exact .statements nodes .null each
  | exprStmt expression => exact each expression (by simp [Node.parts])
  | letStmt name value =>
    refine (each value (by simp [Node.parts])).andThen fun value => ?_
    exact (writes rfl name value).bind fun _ => .pure _
  | returnStmt value => exact (each value (by simp [Node.parts])).andThen fun value => .pure _
  | ident name => exact .identifier name
  | int value => exact .pure _
  | str text => exact .pure _
  | bool value => exact .pure _
  | array elements => exact .parts elements each fun values => .pure _
  | hash entries =>
    refine .pairs entries [] (fun pair member => each pair.1 ?_) fun pair member => each pair.2 ?_
    · exact List.mem_flatMap.mpr ⟨pair, member, by simp⟩
    · exact List.mem_flatMap.mpr ⟨pair, member, by simp⟩
  | fn params body => exact .pure _
  | unary op right => exact (each right (by simp [Node.parts])).andThen fun value => .settle _
  | binary left op right =>
    refine (each left (by simp [Node.parts])).andThen fun leftValue => ?_
    exact (each right (by simp [Node.parts])).andThen fun rightValue => .settle _
  | index left position =>
    refine (each left (by simp [Node.parts])).andThen fun leftValue => ?_
    exact (each position (by simp [Node.parts])).andThen fun positionValue => .settle _
  | call callee args =>
    refine (each callee (by simp [Node.parts])).andThen fun calleeValue => ?_
    refine .parts args (fun arg member => each arg (by simp [Node.parts, member])) fun values => ?_
    exact calls calleeValue values
  | ifThen condition consequence =>
    refine (each condition (by simp [Node.parts])).andThen fun value => ?_
    split
    · exact each consequence (by simp [Node.parts])
    · exact .pure _
  | ifElse condition consequence alternative =>
    refine (each condition (by simp [Node.parts])).andThen fun value => ?_
    split
    · exact each consequence (by simp [Node.parts])
    · exact each alternative (by simp [Node.parts])

/-- An evaluation is its node between two events. -/
theorem Holds.eval (node : Node)
    (enters : contract.Keeps (notice (watch limit) (.enter node scope)))
    (inner : contract.Holds (Evaluate.node watch limit (Node.eval watch limit) scope node))
    (leaves : ∀ value, Meets (contract.after value) (notice (watch limit) (.leave value))
      (fun _ => contract.after value) contract.stopped) :
    contract.Holds (Node.eval watch (limit + 1) node scope) := by
  refine enters.bind fun _ => ?_
  refine Meets.bind inner fun value => ?_
  exact Meets.bind (leaves value) fun _ => Meets.pure fun _ reached => reached

end Contract

end Capuchin
