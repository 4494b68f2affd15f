import Capuchin.Token.Basic

namespace Capuchin

/-- Why tokens are no program. -/
inductive Rejection where
  | unexpected (expected actual : Kind)
  /-- A token of this kind begins no expression where one is needed. -/
  | noOperand (kind : Kind)
  /-- More expressions stand open at once than the limit allows. -/
  | overflow
  deriving DecidableEq

def Rejection.message : Rejection → String
  | unexpected expected actual =>
    "Expected next token to be '" ++ expected.text ++ "', but got '" ++ actual.text ++ "'."
  | noOperand kind => "No prefix parse function for '" ++ kind.text ++ "' found."
  | overflow => "maximum recursion depth exceeded"

end Capuchin
