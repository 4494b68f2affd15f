import Capuchin.Table
import Capuchin.Value.Complaint

namespace Capuchin

/-- The quotient cut off toward zero; there is none by zero. -/
def truncatedQuotient? (dividend divisor : Int) : Option Int :=
  if divisor = 0 then none else some (dividend.tdiv divisor)

namespace Value

/-- Any value can be negated by `!`, and integers by `-`. -/
def applyUnary (op : UnaryOp) (right : Value) : Except Complaint Value :=
  match op, right with
  | .bang, right => .ok (.bool (!right.truthy))
  | .minus, .int value => .ok (.int (-value))
  | op, right => .error (.unknownUnary op right)

/-- Integer arithmetic is exact; division cuts off toward zero. -/
def applyInt (left : Int) (op : BinaryOp) (right : Int) : Except Complaint Value :=
  match op with
  | .plus => .ok (.int (left + right))
  | .minus => .ok (.int (left - right))
  | .times => .ok (.int (left * right))
  | .divide =>
    match truncatedQuotient? left right with
    | none => .error (.divisionByZero left right)
    | some quotient => .ok (.int quotient)
  | .lt => .ok (.bool (left < right))
  | .gt => .ok (.bool (right < left))
  | .eq => .ok (.bool (left = right))
  | .notEq => .ok (.bool (left ≠ right))
  | .other _ => .error (.unknownBinary (.int left) op (.int right))

def applyBool (left : Bool) (op : BinaryOp) (right : Bool) : Except Complaint Value :=
  match op with
  | .eq => .ok (.bool (left == right))
  | .notEq => .ok (.bool (left != right))
  | op => .error (.unknownBinary (.bool left) op (.bool right))

def applyStr (left : String) (op : BinaryOp) (right : String) : Except Complaint Value :=
  match op with
  | .plus => .ok (.str (left ++ right))
  | op => .error (.unknownBinary (.str left) op (.str right))

/-- Values of one type are combined as that type says; other types know no operators. -/
def applyBinary (left : Value) (op : BinaryOp) (right : Value) : Except Complaint Value :=
  match left, right with
  | .int left, .int right => applyInt left op right
  | .bool left, .bool right => applyBool left op right
  | .str left, .str right => applyStr left op right
  | left, right =>
    if left.shape = right.shape then .error (.unknownBinary left op right)
    else .error (.typeMismatch left op right)

/-- Element at a position; there is none before the first and after the last. -/
def elementAt (elements : List Value) (position : Int) : Value :=
  match position with
  | .ofNat position => elements[position]?.getD .null
  | .negSucc _ => .null

/-- Arrays are indexed by integers and hashes by keys; a missing element or key gives null. -/
def index (left position : Value) : Except Complaint Value :=
  match left, position with
  | .array elements, .int position => .ok (elementAt elements position)
  | .hash entries, position =>
    match position.key? with
    | some key => .ok ((Table.get? key entries).getD .null)
    | none => .error (.invalidKey position)
  | left, _ => .error (.unsupportedIndex left)

end Value

/-- Call a built-in function; it does not look inside its arguments. -/
def Builtin.apply : Builtin → List Value → Except Complaint Value
  | .len, [.str text] => .ok (.int text.length)
  | .len, [.array elements] => .ok (.int elements.length)
  | .len, [argument] => .error (.unsupportedArgument .len argument)
  | .first, [.array elements] => .ok (elements.head?.getD .null)
  | .first, [argument] => .error (.unsupportedArgument .first argument)
  | .last, [.array elements] => .ok (elements.getLast?.getD .null)
  | .last, [argument] => .error (.unsupportedArgument .last argument)
  | .rest, [.array []] => .ok .null
  | .rest, [.array (_ :: others)] => .ok (.array others)
  | .rest, [argument] => .error (.unsupportedArgument .rest argument)
  | .push, [.array elements, added] => .ok (.array (elements ++ [added]))
  | .push, [argument, _] => .error (.unsupportedArgument .push argument)
  | .push, args => .error (.wrongCount 2 args.length)
  | _, args => .error (.wrongCount 1 args.length)

end Capuchin
