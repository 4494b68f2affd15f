import Capuchin.Syntax.Node

namespace Capuchin

/-- Number of a scope in a heap. -/
abbrev ScopeId := Nat

inductive Builtin where
  | len | first | last | rest | push
  deriving DecidableEq

inductive ErrorKind where
  | typeMismatch | unknownOperator | identifierNotFound | notAFunction
  | argumentWrongNumber | argumentNotSupported | indexOperatorNotSupported
  | invalidHashKey | divisionByZero
  deriving DecidableEq

/-- Values that can be keys; keys of different types are different. -/
inductive Key where
  | int (value : Int)
  | bool (value : Bool)
  | str (text : String)
  deriving DecidableEq

/-- A `return` on its way out and an error are values too. -/
inductive Value where
  | int (value : Int)
  | bool (value : Bool)
  | str (text : String)
  | null
  | array (elements : List Value)
  /-- Entries in the order their keys were first written. -/
  | hash (entries : List (Key × Value))
  /-- A function shares the scope it was written in. -/
  | fn (params : List String) (body : Node) (scope : ScopeId)
  | builtin (builtin : Builtin)
  /-- What a `return` hands to the enclosing function call or program. -/
  | returned (value : Value)
  | error (kind : ErrorKind) (message : String)

/-- The type of a value, as operators compare it. -/
inductive Shape where
  | int | bool | str | null | array | hash | fn | builtin | returned | error
  deriving DecidableEq

def Builtin.name : Builtin → String
  | len => "len"
  | first => "first"
  | last => "last"
  | rest => "rest"
  | push => "push"

def Builtin.all : List Builtin :=
  [len, first, last, rest, push]

def Builtin.ofName? (name : String) : Option Builtin :=
  all.find? (·.name == name)

/-- An error kind's name in the debug log. -/
def ErrorKind.label : ErrorKind → String
  | typeMismatch => "TYPE_MISMATCH"
  | unknownOperator => "UNKNOWN_OPERATOR"
  | identifierNotFound => "IDENTIFIER_NOT_FOUND"
  | notAFunction => "NOT_A_FUNCTION"
  | argumentWrongNumber => "ARGUMENT_WRONG_NUMBER"
  | argumentNotSupported => "ARGUMENT_NOT_SUPPORTED"
  | indexOperatorNotSupported => "INDEX_OPERATOR_NOT_SUPPORTED"
  | invalidHashKey => "INVALID_HASH_KEY"
  | divisionByZero => "DIVISION_BY_ZERO"

def ErrorKind.all : List ErrorKind :=
  [typeMismatch, unknownOperator, identifierNotFound, notAFunction, argumentWrongNumber,
    argumentNotSupported, indexOperatorNotSupported, invalidHashKey, divisionByZero]

def ErrorKind.ofLabel? (label : String) : Option ErrorKind :=
  all.find? (·.label == label)

def Key.toValue : Key → Value
  | int value => .int value
  | bool value => .bool value
  | str text => .str text

namespace Value

def key? : Value → Option Key
  | int value => some (.int value)
  | bool value => some (.bool value)
  | str text => some (.str text)
  | _ => none

def shape : Value → Shape
  | int _ => .int
  | bool _ => .bool
  | str _ => .str
  | null => .null
  | array _ => .array
  | hash _ => .hash
  | fn _ _ _ => .fn
  | builtin _ => .builtin
  | returned _ => .returned
  | error _ _ => .error

/-- Only null and false count as false. -/
def truthy : Value → Bool
  | null => false
  | bool value => value
  | _ => true

/-- Values that end a list of statements early. -/
def stops : Value → Bool
  | returned _ => true
  | error _ _ => true
  | _ => false

/-- Take off one `return`, if there is one. -/
def unwrap : Value → Value
  | returned value => value
  | value => value

theorem key?_toValue (key : Key) : key.toValue.key? = some key := by
  cases key <;> rfl

end Value

end Capuchin
