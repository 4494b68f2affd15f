import Capuchin.Decimal
import Capuchin.Parse.Place
import Capuchin.Parse.Rejection

namespace Capuchin.Parse

/-- What the next token may be, and the place it would be put. -/
inductive State where
  /-- A statement may begin, or the list of statements may end. -/
  | statement (site : Site) (done : List Node)
  | letName (site : Site) (done : List Node)
  | letAssign (site : Site) (done : List Node) (name : String)
  | operand (hole : Hole)
  /-- The hole has its expression, unless the next token binds it tighter. -/
  | operator (hole : Hole) (expression : Node)
  | ifOpen (hole : Hole)
  | thenOpen (hole : Hole) (condition : Node)
  | thenDone (hole : Hole) (condition consequence : Node)
  | elseOpen (hole : Hole) (condition consequence : Node)
  | fnOpen (hole : Hole)
  | firstParam (hole : Hole)
  | nextParam (hole : Hole) (params : List String)
  | paramDone (hole : Hole) (params : List String)
  | bodyOpen (hole : Hole) (params : List String)
  | firstElement (hole : Hole)
  | firstArgument (hole : Hole) (callee : Node)
  /-- A key may begin, or the hash may end. -/
  | hashEntry (hole : Hole) (done : List (Node × Node))
  | finished (statements : List Node)

abbrev Step := Except Rejection State

/-- Go on to `next` if the token is the wanted mark. -/
def expect (wanted : Mark) (token : Token) (next : Step) : Step :=
  if token = .mark wanted then next else .error (.unexpected (.mark wanted) token.kind)

/-- Open one more expression, unless that is one too many. -/
def Hole.enter (limit : Nat) (hole : Hole) : Step :=
  if hole.depth ≤ limit then .ok (.operand hole) else .error .overflow

/-- The first token of an expression. -/
def Hole.begin (limit : Nat) (hole : Hole) : Token → Step
  | .ident name => .ok (.operator hole (.ident name))
  | .int digits => .ok (.operator hole (.int (Decimal.read digits)))
  | .str text => .ok (.operator hole (.str text))
  | .keyword .trueWord => .ok (.operator hole (.bool true))
  | .keyword .falseWord => .ok (.operator hole (.bool false))
  | .keyword .ifWord => .ok (.ifOpen hole)
  | .keyword .fnWord => .ok (.fnOpen hole)
  | .mark .bang => (Hole.operand hole .bang).enter limit
  | .mark .minus => (Hole.operand hole .minus).enter limit
  | .mark .lparen => (Hole.group hole).enter limit
  | .mark .lbracket => .ok (.firstElement hole)
  | .mark .lbrace => .ok (.hashEntry hole [])
  | token => .error (.noOperand token.kind)

/-- Open an expression with its first token at hand. -/
def Hole.enterWith (limit : Nat) (hole : Hole) (token : Token) : Step :=
  if hole.depth ≤ limit then hole.begin limit token else .error .overflow

/-- How a token goes on with a finished expression. -/
inductive Continuation where
  | binary (op : BinaryOp)
  | call
  | index

def Continuation.level : Continuation → Nat
  | binary op => binaryLevel op
  | call => 7
  | index => 8

def continuation? : Token → Option Continuation
  | .mark .eq => some (.binary .eq)
  | .mark .notEq => some (.binary .notEq)
  | .mark .lt => some (.binary .lt)
  | .mark .gt => some (.binary .gt)
  | .mark .plus => some (.binary .plus)
  | .mark .minus => some (.binary .minus)
  | .mark .asterisk => some (.binary .times)
  | .mark .slash => some (.binary .divide)
  | .mark .lparen => some .call
  | .mark .lbracket => some .index
  | _ => none

/-- The continuation by a token that binds tighter than `level`. -/
def tighter? (level : Nat) (token : Token) : Option Continuation :=
  (continuation? token).filter (level < ·.level)

def Hole.extend (limit : Nat) (hole : Hole) (expression : Node) : Continuation → Step
  | .binary op => (Hole.right hole expression op).enter limit
  | .call => .ok (.firstArgument hole expression)
  | .index => (Hole.position hole expression).enter limit

end Capuchin.Parse
