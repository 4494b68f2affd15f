import Capuchin.Evaluate.Run
import Capuchin.Value.Operation

/-! Evaluation of trees. Each construct is given over a function `self` that evaluates its parts;
`Node.eval` ties the knot and counts how deep evaluations nest. Errors are values, and every part
is followed by `andThen`, so the first error is the result. -/

namespace Capuchin.Evaluate

open Run

variable {σ : Type}

section Constructs

variable (watch : Monitor σ) (limit : Nat) (self : Node → ScopeId → Run σ Value)

/-- Evaluate parts from left to right and go on with their values. -/
def parts (scope : ScopeId) : List Node → (List Value → Run σ Value) → Run σ Value
  | [], next => next []
  | node :: nodes, next =>
    andThen (self node scope) fun value =>
      parts scope nodes fun values => next (value :: values)

/-- Evaluate the pairs of a hash after the entries read so far; a key is checked before its value
is evaluated. -/
def pairs (scope : ScopeId) : List (Node × Node) → Table Key Value → Run σ Value
  | [], entries => return .hash entries
  | (keyNode, valueNode) :: rest, entries =>
    andThen (self keyNode scope) fun key =>
      match key.key? with
      | none => complain limit (.invalidKey key)
      | some key =>
        andThen (self valueNode scope) fun value =>
          pairs scope rest (Table.insert key value entries)

/-- Evaluate statements in order, up to one whose value ends the list; `last` is the value of the
statement before. -/
def statements (scope : ScopeId) : List Node → Value → Run σ Value
  | [], last => return last
  | node :: nodes, _ => do
    let value ← self node scope
    if value.stops then return value else statements scope nodes value

/-- Bind names to values in one scope, in order. -/
def bindAll (scope : ScopeId) : List (String × Value) → Run σ Unit
  | [] => return ()
  | (name, value) :: rest => do
    write (watch limit) scope name value
    bindAll scope rest

/-- Call a value. A function runs in a new scope inside the one it was written in; surplus
arguments are dropped and parameters without an argument stay unbound. -/
def apply (callee : Value) (args : List Value) : Run σ Value :=
  match callee with
  | .fn params body captured => do
    notice (watch limit) (.call callee args)
    let scope ← create (watch limit) captured
    bindAll watch limit scope (params.zip args)
    return (← self body scope).unwrap
  | .builtin builtin => do
    notice (watch limit) (.call callee args)
    settle limit (builtin.apply args)
  | callee => complain limit (.notFunction callee)

/-- Value of a name: what the scopes bind it to, or else a built-in function. -/
def identifier (scope : ScopeId) (name : String) : Run σ Value := do
  match ← find? scope name with
  | some value => return value
  | none =>
    match Builtin.ofName? name with
    | some builtin => return .builtin builtin
    | none => complain limit (.unbound name)

/-- Evaluate one node, its parts by `self`. -/
def node (scope : ScopeId) : Node → Run σ Value
  | .absent => return .null
  | .program nodes => return (← statements self scope nodes .null).unwrap
  | .block nodes => statements self scope nodes .null
  | .exprStmt expression => self expression scope
  | .letStmt name value =>
    andThen (self value scope) fun value => do
      write (watch limit) scope name value
      return .null
  | .returnStmt value => andThen (self value scope) fun value => return .returned value
  | .ident name => identifier limit scope name
  | .int value => return .int value
  | .str text => return .str text
  | .bool value => return .bool value
  | .array elements => parts self scope elements fun values => return .array values
  | .hash entries => pairs limit self scope entries []
  | .fn params body => return .fn params body scope
  | .unary op right =>
    andThen (self right scope) fun right =>
      settle limit (Value.applyUnary op right)
  | .binary left op right =>
    andThen (self left scope) fun left =>
      andThen (self right scope) fun right =>
        settle limit (Value.applyBinary left op right)
  | .ifThen condition consequence =>
    andThen (self condition scope) fun condition =>
      if condition.truthy then self consequence scope else return .null
  | .ifElse condition consequence alternative =>
    andThen (self condition scope) fun condition =>
      if condition.truthy then self consequence scope else self alternative scope
  | .call callee args =>
    andThen (self callee scope) fun callee =>
      parts self scope args fun args => apply watch limit self callee args
  | .index left position =>
    andThen (self left scope) fun left =>
      andThen (self position scope) fun position =>
        settle limit (Value.index left position)

end Constructs

end Evaluate

/-- Evaluate a node in a scope. -/
def Node.eval {σ : Type} (watch : Monitor σ) : Nat → Node → ScopeId → Run σ Value
  | 0, _, _ => throw .overflow
  | limit + 1, node, scope => do
    Run.notice (watch limit) (.enter node scope)
    let value ← Evaluate.node watch limit (Node.eval watch limit) scope node
    Run.notice (watch limit) (.leave value)
    return value

end Capuchin
