namespace Capuchin

/-- Operators before an operand; `other` are those that no source text can write. -/
inductive UnaryOp where
  | bang | minus
  | other (symbol : String)
  deriving DecidableEq

inductive BinaryOp where
  | plus | minus | times | divide | lt | gt | eq | notEq
  | other (symbol : String)
  deriving DecidableEq

def UnaryOp.symbol : UnaryOp → String
  | bang => "!"
  | minus => "-"
  | other symbol => symbol

def UnaryOp.ofSymbol (symbol : String) : UnaryOp :=
  if symbol = "!" then bang
  else if symbol = "-" then minus
  else other symbol

def BinaryOp.symbol : BinaryOp → String
  | plus => "+"
  | minus => "-"
  | times => "*"
  | divide => "/"
  | lt => "<"
  | gt => ">"
  | eq => "=="
  | notEq => "!="
  | other symbol => symbol

/-- The operators that a source text can write. -/
def BinaryOp.written : List BinaryOp :=
  [plus, minus, times, divide, lt, gt, eq, notEq]

def BinaryOp.ofSymbol (symbol : String) : BinaryOp :=
  (written.find? (·.symbol == symbol)).getD (other symbol)

end Capuchin
