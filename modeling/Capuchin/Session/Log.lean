import Capuchin.Evaluate.Event
import Capuchin.Session.Transcript
import Capuchin.Syntax.Outline
import Capuchin.Token.Scan
import Capuchin.Value.Inspect

namespace Capuchin.Log

def token (token : Token) : String :=
  "Token(type=<TokenType." ++ token.kind.label ++ ": " ++ Quoted.quote token.kind.text
    ++ ">, literal=" ++ Quoted.quote token.literal ++ ")"

def tokens (source : String) : Entry :=
  .log .reading ("Tokens: " ++ Node.bracketed ((Token.ofSource source).map token))

def tree (limit : Nat) (program : Node) : Except Fault Entry :=
  return .log .reading ("AST: " ++ (← program.outline limit))

def errorKind (kind : ErrorKind) : Entry :=
  .log .command ("Evaluation error of kind " ++ kind.label)

def callee (limit : Nat) : Value → Except Fault String
  | .builtin builtin => .ok ("builtin " ++ builtin.name)
  | value => value.inspect limit

def call (limit : Nat) (function : Value) (args : List Value) : Except Fault Entry := do
  let function ← callee limit function
  let args ← args.mapM (Value.inspect limit)
  return .log .evaluation ("Calling " ++ function ++ " with " ++ Quoted.list args)

/-- Logs calls and nothing else. -/
def calls : Monitor Transcript
  | limit, .call function args, transcript => return transcript.push (← call limit function args)
  | _, _, transcript => .ok transcript

end Capuchin.Log
