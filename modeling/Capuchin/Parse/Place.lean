import Capuchin.Syntax.Node

/-! Places in an unfinished program. A `Hole` is where an expression is wanted, a `Site` where a
list of statements stands; each holds what was read before it and the place that encloses it, so
that a place is the whole history a reader needs. -/

namespace Capuchin.Parse

mutual

/-- Where a list of statements stands. -/
inductive Site where
  | program
  | thenBranch (hole : Hole) (condition : Node)
  | elseBranch (hole : Hole) (condition consequence : Node)
  | body (hole : Hole) (params : List String)

/-- Where an expression is wanted; `done` are the complete parts before it. -/
inductive Hole where
  | letValue (site : Site) (done : List Node) (name : String)
  | returnValue (site : Site) (done : List Node)
  | statement (site : Site) (done : List Node)
  | operand (hole : Hole) (op : UnaryOp)
  | right (hole : Hole) (left : Node) (op : BinaryOp)
  | group (hole : Hole)
  | condition (hole : Hole)
  | element (hole : Hole) (done : List Node)
  | argument (hole : Hole) (callee : Node) (done : List Node)
  | key (hole : Hole) (done : List (Node × Node))
  | value (hole : Hole) (done : List (Node × Node)) (key : Node)
  | position (hole : Hole) (left : Node)

end

mutual

/-- Expressions that stand open around a list of statements. -/
def Site.depth : Site → Nat
  | .program => 0
  | .thenBranch hole _ => hole.depth
  | .elseBranch hole _ _ => hole.depth
  | .body hole _ => hole.depth

/-- Expressions that stand open, the wanted one included. -/
def Hole.depth : Hole → Nat
  | .letValue site _ _ => site.depth + 1
  | .returnValue site _ => site.depth + 1
  | .statement site _ => site.depth + 1
  | .operand hole _ => hole.depth + 1
  | .right hole _ _ => hole.depth + 1
  | .group hole => hole.depth + 1
  | .condition hole => hole.depth + 1
  | .element hole _ => hole.depth + 1
  | .argument hole _ _ => hole.depth + 1
  | .key hole _ => hole.depth + 1
  | .value hole _ _ => hole.depth + 1
  | .position hole _ => hole.depth + 1

end

/-- How tightly a written operator binds: comparisons of equality least, products most. -/
def binaryLevel : BinaryOp → Nat
  | .eq => 2
  | .notEq => 2
  | .lt => 3
  | .gt => 3
  | .plus => 4
  | .minus => 4
  | .times => 5
  | .divide => 5
  | .other _ => 1

/-- What stands before a hole takes the expression unless a token binds tighter than this. -/
def Hole.level : Hole → Nat
  | .operand _ _ => 6
  | .right _ _ op => binaryLevel op
  | _ => 1

end Capuchin.Parse
