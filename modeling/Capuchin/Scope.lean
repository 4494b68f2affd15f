import Capuchin.Table
import Capuchin.Value.Basic

/-! Scopes and the heap that holds them. A scope is known by its number, so that functions and
calls can share it; scopes are added and written, never taken away. -/

namespace Capuchin

structure Scope where
  bindings : Table String Value := []
  outer : Option ScopeId := none

structure Heap where
  scopes : Array Scope := #[]

namespace Heap

/-- Value of a name, looked for from a scope outward. Outer scopes are older, which is why the
search ends. -/
def find? (heap : Heap) (id : ScopeId) (name : String) : Option Value :=
  match heap.scopes[id]? with
  | none => none
  | some scope =>
    match Table.get? name scope.bindings with
    | some value => some value
    | none =>
      match scope.outer with
      | some outer => if outer < id then heap.find? outer name else none
      | none => none
termination_by id

/-- Number of the scope created next. -/
def next (heap : Heap) : ScopeId :=
  heap.scopes.size

/-- Add an empty scope. -/
def create (heap : Heap) (outer : Option ScopeId) : Heap :=
  { scopes := heap.scopes.push { outer } }

/-- Bind a name in one scope. -/
def write (heap : Heap) (id : ScopeId) (name : String) (value : Value) : Heap :=
  { scopes := heap.scopes.modify id fun scope =>
      { scope with bindings := Table.insert name value scope.bindings } }

end Heap

end Capuchin
