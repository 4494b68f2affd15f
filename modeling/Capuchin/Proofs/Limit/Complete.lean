import Capuchin.Proofs.Evaluate.Contract
import Capuchin.Proofs.Limit.Writing
import Capuchin.Proofs.Value.Throughout
import Capuchin.Session.Log

namespace Capuchin

namespace Node

def bodies : Node → List Node
  | .fn _ body => [body]
  | _ => []

/-- The parts that are printed in braces. -/
def braces : Node → List Node
  | .fn _ body | .ifThen _ body => [body]
  | .ifElse _ consequence alternative => [consequence, alternative]
  | _ => []

def isBlock : Node → Bool
  | .program _ | .block _ => true
  | _ => false

/-- No part is missing, and all that stands in braces are statements, at any depth. -/
inductive Complete : Node → Prop where
  | intro (present : node ≠ .absent) (braces : ∀ body ∈ node.braces, body.isBlock = true)
      (parts : ∀ part ∈ node.parts, Complete part)
      (bodies : ∀ body ∈ node.bodies, Complete body) : Complete node

namespace Complete

variable {node : Node}

theorem present (complete : node.Complete) : node ≠ .absent := by
  cases complete
  assumption

theorem parts (complete : node.Complete) : ∀ part ∈ node.parts, part.Complete := by
  cases complete
  assumption

theorem bodies (complete : node.Complete) : ∀ body ∈ node.bodies, body.Complete := by
  cases complete
  assumption

end Complete

theorem braced_reaches {body : Node} (block : body.isBlock = true)
    (reached : Reaches (render · body) text) :
    ∃ whole, Reaches (fun limit => braced (render limit) body) whole := by
  cases body with
  | program nodes =>
    cases nodes with
    | nil => exact ⟨_, .ok⟩
    | cons node nodes => exact ⟨_, reached.bind .ok⟩
  | block nodes =>
    cases nodes with
    | nil => exact ⟨_, .ok⟩
    | cons node nodes => exact ⟨_, reached.bind .ok⟩
  | _ => cases block

theorem Complete.renders {node : Node} (complete : node.Complete) :
    ∃ text, Reaches (render · node) text := by
  induction complete with
  | @intro node present braces _ _ part body =>
    cases node with
    | absent => exact absurd rfl present
    | program statements =>
      obtain ⟨_, texts⟩ := Reaches.each statements part
      exact ⟨_, .step (texts.bind .ok)⟩
    | block statements =>
      obtain ⟨_, texts⟩ := Reaches.each statements part
      exact ⟨_, .step (texts.bind .ok)⟩
    | letStmt name value =>
      obtain ⟨_, text⟩ := part value (by simp [Node.parts])
      exact ⟨_, .step (text.bind .ok)⟩
    | returnStmt value =>
      obtain ⟨_, text⟩ := part value (by simp [Node.parts])
      exact ⟨_, .step (text.bind .ok)⟩
    | exprStmt expression =>
      obtain ⟨_, text⟩ := part expression (by simp [Node.parts])
      exact ⟨_, .step (text.bind .ok)⟩
    | ident name => exact ⟨_, .step .ok⟩
    | int value => exact ⟨_, .step .ok⟩
    | str text => exact ⟨_, .step .ok⟩
    | bool value => exact ⟨_, .step .ok⟩
    | array elements =>
      obtain ⟨_, texts⟩ := Reaches.each elements part
      exact ⟨_, .step (texts.bind .ok)⟩
    | hash pairs =>
      have entry : ∀ pair ∈ pairs, ∃ text, Reaches (fun limit => do
          return (← render limit pair.1) ++ ": " ++ (← render limit pair.2)) text := by
        intro pair member
        obtain ⟨_, key⟩ := part pair.1 (List.mem_flatMap.mpr ⟨pair, member, by simp⟩)
        obtain ⟨_, value⟩ := part pair.2 (List.mem_flatMap.mpr ⟨pair, member, by simp⟩)
        exact ⟨_, key.bind (value.bind .ok)⟩
      obtain ⟨_, texts⟩ := Reaches.each pairs entry
      exact ⟨_, .step (texts.bind .ok)⟩
    | fn params inside =>
      obtain ⟨_, text⟩ := body inside (by simp [Node.bodies])
      obtain ⟨_, whole⟩ := braced_reaches (braces inside (by simp [Node.braces])) text
      exact ⟨_, .step (whole.bind .ok)⟩
    | unary op right =>
      obtain ⟨_, text⟩ := part right (by simp [Node.parts])
      exact ⟨_, .step (text.bind .ok)⟩
    | binary left op right =>
      obtain ⟨_, first⟩ := part left (by simp [Node.parts])
      obtain ⟨_, second⟩ := part right (by simp [Node.parts])
      exact ⟨_, .step (first.bind (second.bind .ok))⟩
    | index left position =>
      obtain ⟨_, first⟩ := part left (by simp [Node.parts])
      obtain ⟨_, second⟩ := part position (by simp [Node.parts])
      exact ⟨_, .step (first.bind (second.bind .ok))⟩
    | call callee args =>
      obtain ⟨_, first⟩ := part callee (by simp [Node.parts])
      obtain ⟨_, texts⟩ := Reaches.each args fun arg member => part arg (by simp [Node.parts, member])
      exact ⟨_, .step (first.bind (texts.bind .ok))⟩
    | ifThen condition consequence =>
      obtain ⟨_, test⟩ := part condition (by simp [Node.parts])
      obtain ⟨_, text⟩ := part consequence (by simp [Node.parts])
      obtain ⟨_, whole⟩ := braced_reaches (braces consequence (by simp [Node.braces])) text
      exact ⟨_, .step (test.bind (whole.bind .ok))⟩
    | ifElse condition consequence alternative =>
      obtain ⟨_, test⟩ := part condition (by simp [Node.parts])
      obtain ⟨_, text⟩ := part consequence (by simp [Node.parts])
      obtain ⟨_, whole⟩ := braced_reaches (braces consequence (by simp [Node.braces])) text
      obtain ⟨_, other⟩ := part alternative (by simp [Node.parts])
      obtain ⟨_, rest⟩ := braced_reaches (braces alternative (by simp [Node.braces])) other
      exact ⟨_, .step (test.bind (whole.bind (rest.bind .ok)))⟩

/-- An outline has a word for a missing part, so all trees can be outlined. -/
theorem outline_onlyCut (limit : Nat) (node : Node) : OnlyCut .overflow (node.outline limit) := by
  induction limit generalizing node with
  | zero => exact .inl rfl
  | succ limit ih =>
    have each (nodes : List Node) := OnlyCut.mapM nodes fun node _ => ih node
    simp only [outline]
    cases node with
    | absent => exact .ok _
    | program statements => exact (each statements).bind fun _ => .ok _
    | block statements => exact (each statements).bind fun _ => .ok _
    | letStmt name value => exact (ih value).bind fun _ => .ok _
    | returnStmt value => exact (ih value).bind fun _ => .ok _
    | exprStmt expression => exact (ih expression).bind fun _ => .ok _
    | ident name => exact .ok _
    | int value => exact .ok _
    | str text => exact .ok _
    | bool value => exact .ok _
    | array elements => exact (each elements).bind fun _ => .ok _
    | hash pairs =>
      refine (OnlyCut.mapM pairs fun pair _ => ?_).bind fun _ => .ok _
      exact (ih pair.1).bind fun _ => (ih pair.2).bind fun _ => .ok _
    | fn params body => exact (ih body).bind fun _ => .ok _
    | unary op right => exact (ih right).bind fun _ => .ok _
    | binary left op right => exact (ih left).bind fun _ => (ih right).bind fun _ => .ok _
    | index left position => exact (ih left).bind fun _ => (ih position).bind fun _ => .ok _
    | call callee args => exact (ih callee).bind fun _ => (each args).bind fun _ => .ok _
    | ifThen condition consequence =>
      exact (ih condition).bind fun _ => (ih consequence).bind fun _ => .ok _
    | ifElse condition consequence alternative =>
      exact (ih condition).bind fun _ =>
        (ih consequence).bind fun _ => (ih alternative).bind fun _ => .ok _

end Node

/-- All functions in the value, at any depth, have complete bodies. -/
def Value.Complete (value : Value) : Prop :=
  value.Throughout (Value.BodyIs Node.Complete)

/-- The value has this text, and a limit can only be too low for it. -/
structure Value.HasText (value : Value) (text : String) : Prop where
  reached : Reaches (fun limit => value.inspect limit) text
  cut : ∀ limit, Cut .overflow (value.inspect limit) (.ok text)

theorem Key.inspect_reaches (key : Key) :
    ∃ text, Reaches (fun limit => key.toValue.inspect limit) text := by
  cases key <;> exact ⟨_, .step .ok⟩

theorem Value.inspect_reaches {value : Value} (complete : value.Complete) :
    ∃ text, Reaches (fun limit => value.inspect limit) text := by
  induction complete with
  | @intro value here _ part =>
    cases value with
    | int value => exact ⟨_, .step .ok⟩
    | bool value => exact ⟨_, .step .ok⟩
    | str text => exact ⟨_, .step .ok⟩
    | null => exact ⟨_, .step .ok⟩
    | array elements =>
      obtain ⟨_, texts⟩ := Reaches.each elements part
      exact ⟨_, .step (texts.bind .ok)⟩
    | hash entries =>
      have pair : ∀ entry ∈ entries, ∃ text, Reaches (fun limit => do
          return (← entry.1.toValue.inspect limit) ++ ": " ++ (← entry.2.inspect limit)) text := by
        intro entry member
        obtain ⟨_, key⟩ := entry.1.inspect_reaches
        obtain ⟨_, stored⟩ := part entry.2 (List.mem_map_of_mem member)
        exact ⟨_, key.bind (stored.bind .ok)⟩
      obtain ⟨_, texts⟩ := Reaches.each entries pair
      exact ⟨_, .step (texts.bind .ok)⟩
    | fn params body scope =>
      obtain ⟨_, text⟩ := Node.Complete.renders here
      exact ⟨_, .step (text.bind .ok)⟩
    | builtin builtin => exact ⟨_, .step .ok⟩
    | returned inner =>
      obtain ⟨_, text⟩ := part inner (List.mem_singleton_self inner)
      exact ⟨_, .step text⟩
    | error kind message => exact ⟨_, .step .ok⟩

theorem Value.Complete.hasText {value : Value} (complete : value.Complete) :
    ∃ text, value.HasText text := by
  obtain ⟨text, reached⟩ := Value.inspect_reaches complete
  exact ⟨text, reached, reached.cut fun _ _ order => value.inspect_cut order⟩

theorem Value.inspect_onlyCut {value : Value} (complete : value.Complete) (limit : Nat) :
    OnlyCut .overflow (value.inspect limit) := by
  obtain ⟨text, written⟩ := Value.Complete.hasText complete
  rcases written.cut limit with stopped | done
  · exact .inl stopped
  · exact .inr ⟨text, done⟩

theorem Log.call_onlyCut {callee : Value} (called : callee.Complete)
    (given : ∀ arg ∈ args, Value.Complete arg) (limit : Nat) :
    OnlyCut .overflow (Log.call limit callee args) := by
  have named : OnlyCut .overflow (Log.callee limit callee) := by
    unfold Log.callee
    split
    · exact .ok _
    · exact Value.inspect_onlyCut called limit
  refine named.bind fun _ => ?_
  refine (OnlyCut.mapM args fun arg member => ?_).bind fun _ => .ok _
  exact Value.inspect_onlyCut (given arg member) limit

end Capuchin
