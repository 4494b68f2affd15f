namespace Capuchin

/-- What can stop a run from outside the language. Errors of a program are values; faults are not,
and no program can see them. -/
inductive Fault where
  /-- More nested calls than the limit allows. -/
  | overflow
  /-- A missing part of a tree had to be printed. -/
  | missingNode
  /-- A body had to be printed in braces that is no list of statements but what the label says. -/
  | noStatements (label : String)
  deriving DecidableEq

def Fault.message : Fault → String
  | overflow => "maximum recursion depth exceeded"
  | missingNode => "Unexpected node @ print_node(): None"
  | noStatements label => "'" ++ label ++ "' object has no attribute 'statements'"

end Capuchin
