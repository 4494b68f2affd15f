import Capuchin.Evaluate.Event
import Capuchin.Value.Complaint

namespace Capuchin

/-- A heap and a monitor's notes. -/
structure World (σ : Type) where
  heap : Heap
  notes : σ

abbrev Run (σ : Type) := EStateM Fault (World σ)

namespace Run

variable {σ : Type}

/-- A result, or the error value of the complaint about it, whose message may be a fault. -/
def settle (limit : Nat) (result : Except Complaint Value) : Run σ Value :=
  match Complaint.settle limit result with
  | .ok value => pure value
  | .error fault => throw fault

def complain (limit : Nat) (complaint : Complaint) : Run σ Value :=
  settle limit (.error complaint)

/-- Tell the monitor of an event. -/
def notice (watch : Observer σ) (event : Event) : Run σ Unit := fun world =>
  match watch event world.notes with
  | .ok notes => .ok () { world with notes }
  | .error fault => .error fault world

def find? (scope : ScopeId) (name : String) : Run σ (Option Value) := fun world =>
  .ok (world.heap.find? scope name) world

/-- A new empty scope inside `outer`. -/
def create (watch : Observer σ) (outer : ScopeId) : Run σ ScopeId := do
  let id ← modifyGet fun world =>
    (world.heap.next, { world with heap := world.heap.create (some outer) })
  notice watch (.create id outer)
  return id

/-- Bind a name in one scope. -/
def write (watch : Observer σ) (scope : ScopeId) (name : String) (value : Value) : Run σ Unit := do
  modify fun world => { world with heap := world.heap.write scope name value }
  notice watch (.write scope name value)

/-- Go on with a value, unless it is an error, which is the result then. -/
def andThen (first : Run σ Value) (next : Value → Run σ Value) : Run σ Value := do
  match ← first with
  | .error kind message => return .error kind message
  | value => next value

end Run

end Capuchin
