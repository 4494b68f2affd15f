import Capuchin.Value.Inspect

/-! Why an evaluation goes wrong. A complaint holds the values it is about; it becomes an error
value only with its message, for which those values are displayed. -/

namespace Capuchin

inductive Complaint where
  | typeMismatch (left : Value) (op : BinaryOp) (right : Value)
  | unknownUnary (op : UnaryOp) (right : Value)
  | unknownBinary (left : Value) (op : BinaryOp) (right : Value)
  | unbound (name : String)
  | notFunction (value : Value)
  | wrongCount (expected got : Nat)
  | unsupportedArgument (builtin : Builtin) (argument : Value)
  | unsupportedIndex (left : Value)
  | invalidKey (key : Value)
  | divisionByZero (left right : Int)

def Complaint.kind : Complaint → ErrorKind
  | typeMismatch .. => .typeMismatch
  | unknownUnary .. => .unknownOperator
  | unknownBinary .. => .unknownOperator
  | unbound _ => .identifierNotFound
  | notFunction _ => .notAFunction
  | wrongCount .. => .argumentWrongNumber
  | unsupportedArgument .. => .argumentNotSupported
  | unsupportedIndex _ => .indexOperatorNotSupported
  | invalidKey _ => .invalidHashKey
  | divisionByZero .. => .divisionByZero

/-- Two values with an operator between them. -/
def Complaint.operation (limit : Nat) (left : Value) (symbol : String) (right : Value) :
    Except Fault String := do
  return (← left.inspect limit) ++ " " ++ symbol ++ " " ++ (← right.inspect limit)

/-- The message of a complaint; of two values the left one is displayed first. -/
def Complaint.message (limit : Nat) : Complaint → Except Fault String
  | typeMismatch left op right =>
    return "Type mismatch: " ++ (← operation limit left op.symbol right)
  | unknownUnary op right => return "Unknown operator: " ++ op.symbol ++ (← right.inspect limit)
  | unknownBinary left op right =>
    return "Unknown operator: " ++ (← operation limit left op.symbol right)
  | unbound name => .ok ("Identifier not found: " ++ name)
  | notFunction value => return "Not a function: " ++ (← value.inspect limit)
  | wrongCount expected got =>
    .ok ("Wrong number of arguments: expected " ++ Decimal.write expected ++ ", got "
      ++ Decimal.write got)
  | unsupportedArgument builtin argument =>
    return "Argument to '" ++ builtin.name ++ "' not supported, got " ++ (← argument.inspect limit)
  | unsupportedIndex left => return "Index operator not supported: " ++ (← left.inspect limit)
  | invalidKey key =>
    return "Hash key must be string, integer, or boolean, got: " ++ (← key.inspect limit)
  | divisionByZero left right =>
    return "Division by zero: " ++ (← operation limit (.int left) "/" (.int right))

/-- The error value of a complaint. -/
def Complaint.toValue (limit : Nat) (complaint : Complaint) : Except Fault Value :=
  return .error complaint.kind (← complaint.message limit)

/-- A result, or the error value of the complaint about it. -/
def Complaint.settle (limit : Nat) : Except Complaint Value → Except Fault Value
  | .ok value => .ok value
  | .error complaint => complaint.toValue limit

end Capuchin
