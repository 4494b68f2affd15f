import Capuchin.Parse.State
import Capuchin.Token.Scan

namespace Capuchin.Parse

/-- The state after the brace that closes statements; a program has none. -/
def Site.close? (done : List Node) : Site → Option State
  | .program => none
  | .thenBranch hole condition => some (.thenDone hole condition (.block done))
  | .elseBranch hole condition consequence =>
    some (.operator hole (.ifElse condition consequence (.block done)))
  | .body hole params => some (.operator hole (.fn params (.block done)))

/-- The end of the tokens closes a program and nothing else. -/
def Site.finish (done : List Node) : Site → Step
  | .program => .ok (.finished done)
  | _ => .error (.unexpected (.mark .rbrace) .eof)

/-- The first token of a statement, or the one that ends the list of statements. -/
def Site.start (limit : Nat) (site : Site) (done : List Node) (token : Token) : Step :=
  match token with
  | .eof => site.finish done
  | .keyword .letWord => .ok (.letName site done)
  | .keyword .returnWord => (Hole.returnValue site done).enter limit
  | .mark .rbrace =>
    match site.close? done with
    | some closed => .ok closed
    | none => (Hole.statement site done).enterWith limit token
  | _ => (Hole.statement site done).enterWith limit token

/-- The token after a complete statement; a semicolon belongs to the statement. -/
def Site.next (limit : Nat) (site : Site) (done : List Node) (token : Token) : Step :=
  if token = .mark .semicolon then .ok (.statement site done) else site.start limit done token

/-- The token after an expression: it binds tighter than the hole, or fills the hole, or is met
by the place around the hole. -/
def Hole.resume (limit : Nat) (token : Token) (hole : Hole) (expression : Node) : Step :=
  match tighter? hole.level token with
  | some continuation => hole.extend limit expression continuation
  | none =>
    match hole with
    | .letValue site done name => site.next limit (done ++ [.letStmt name expression]) token
    | .returnValue site done => site.next limit (done ++ [.returnStmt expression]) token
    | .statement site done => site.next limit (done ++ [.exprStmt expression]) token
    | .operand outer op => outer.resume limit token (.unary op expression)
    | .right outer left op => outer.resume limit token (.binary left op expression)
    | .group outer => expect .rparen token (.ok (.operator outer expression))
    | .condition outer => expect .rparen token (.ok (.thenOpen outer expression))
    | .element outer done =>
      if token = .mark .comma then (Hole.element outer (done ++ [expression])).enter limit
      else expect .rbracket token (.ok (.operator outer (.array (done ++ [expression]))))
    | .argument outer callee done =>
      if token = .mark .comma then (Hole.argument outer callee (done ++ [expression])).enter limit
      else expect .rparen token (.ok (.operator outer (.call callee (done ++ [expression]))))
    | .key outer done => expect .colon token ((Hole.value outer done expression).enter limit)
    | .value outer done label =>
      if token = .mark .rbrace then .ok (.operator outer (.hash (done ++ [(label, expression)])))
      else expect .comma token (.ok (.hashEntry outer (done ++ [(label, expression)])))
    | .position outer left => expect .rbracket token (.ok (.operator outer (.index left expression)))

/-- A parameter's name. -/
def Hole.param (hole : Hole) (params : List String) : Token → Step
  | .ident name => .ok (.paramDone hole (params ++ [name]))
  | token => .error (.unexpected .ident token.kind)

/-- Move on by one token. -/
def State.feed (limit : Nat) (state : State) (token : Token) : Step :=
  match state with
  | .statement site done => site.start limit done token
  | .letName site done =>
    match token with
    | .ident name => .ok (.letAssign site done name)
    | token => .error (.unexpected .ident token.kind)
  | .letAssign site done name =>
    expect .assign token ((Hole.letValue site done name).enter limit)
  | .operand hole => hole.begin limit token
  | .operator hole expression => hole.resume limit token expression
  | .ifOpen hole => expect .lparen token ((Hole.condition hole).enter limit)
  | .thenOpen hole condition =>
    expect .lbrace token (.ok (.statement (.thenBranch hole condition) []))
  | .thenDone hole condition consequence =>
    if token = .keyword .elseWord then .ok (.elseOpen hole condition consequence)
    else hole.resume limit token (.ifThen condition consequence)
  | .elseOpen hole condition consequence =>
    expect .lbrace token (.ok (.statement (.elseBranch hole condition consequence) []))
  | .fnOpen hole => expect .lparen token (.ok (.firstParam hole))
  | .firstParam hole =>
    if token = .mark .rparen then .ok (.bodyOpen hole []) else hole.param [] token
  | .nextParam hole params => hole.param params token
  | .paramDone hole params =>
    if token = .mark .comma then .ok (.nextParam hole params)
    else expect .rparen token (.ok (.bodyOpen hole params))
  | .bodyOpen hole params => expect .lbrace token (.ok (.statement (.body hole params) []))
  | .firstElement hole =>
    if token = .mark .rbracket then .ok (.operator hole (.array []))
    else (Hole.element hole []).enterWith limit token
  | .firstArgument hole callee =>
    if token = .mark .rparen then .ok (.operator hole (.call callee []))
    else (Hole.argument hole callee []).enterWith limit token
  | .hashEntry hole done =>
    if token = .mark .rbrace then .ok (.operator hole (.hash done))
    else (Hole.key hole done).enterWith limit token
  | .finished statements => .ok (.finished statements)

/-- Nothing read yet. -/
def State.start : State :=
  .statement .program []

/-- Move on by several tokens. -/
def State.feedAll (limit : Nat) (state : State) (tokens : List Token) : Step :=
  tokens.foldlM (State.feed limit) state

/-- The program of a finished state; any other state has lost its end. -/
def State.program : State → Except Rejection Node
  | .finished statements => .ok (.program statements)
  | _ => .error (.noOperand .eof)

end Parse

/-- The program that tokens up to the first `eof` spell. -/
def Node.ofTokens (limit : Nat) (tokens : List Token) : Except Rejection Node := do
  (← Parse.State.start.feedAll limit tokens).program

/-- The program that a source text spells. -/
def Node.parse (limit : Nat) (source : String) : Except Rejection Node :=
  Node.ofTokens limit (Token.ofSource source)

end Capuchin
