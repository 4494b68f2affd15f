import Capuchin.Fault
import Capuchin.Scope

/-! What can be seen of an evaluation while it runs. A monitor is told of every event, and how many
evaluations may still nest there, and keeps notes; it may stop the run, but it cannot change it
otherwise. -/

namespace Capuchin

inductive Event where
  | enter (node : Node) (scope : ScopeId)
  | leave (value : Value)
  | create (scope outer : ScopeId)
  | write (scope : ScopeId) (name : String) (value : Value)
  /-- A function or a built-in is about to be called with these arguments. -/
  | call (callee : Value) (args : List Value)

/-- A monitor at one depth of a run. -/
abbrev Observer (σ : Type) := Event → σ → Except Fault σ

/-- An observer for every limit that may be left where an event happens. -/
abbrev Monitor (σ : Type) := Nat → Observer σ

namespace Monitor

/-- Takes no notes. -/
def silent {σ : Type} : Monitor σ :=
  fun _ _ notes => .ok notes

/-- Writes down every event. -/
def recorder : Monitor (List Event) :=
  fun _ event events => .ok (events ++ [event])

end Monitor

end Capuchin
