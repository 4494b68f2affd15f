import Capuchin.Syntax.Render
import Capuchin.Value.Basic

namespace Capuchin

/-- Display of a value; a `return` is displayed as what it hands on. `limit` bounds how deep values
may nest. -/
def Value.inspect : Nat → Value → Except Fault String
  | 0, _ => .error .overflow
  | limit + 1, value =>
    match value with
    | .int value => .ok (Decimal.write value)
    | .bool value => .ok (if value then "true" else "false")
    | .str text => .ok ("\"" ++ text ++ "\"")
    | .null => .ok "null"
    | .array elements => return "[" ++ ", ".intercalate (← elements.mapM (inspect limit)) ++ "]"
    | .hash entries => do
      let texts ← entries.mapM fun (key, value) =>
        return (← inspect limit key.toValue) ++ ": " ++ (← inspect limit value)
      return "\x7b" ++ ", ".intercalate texts ++ "\x7d"
    | .fn params body _ => do
      let text ← body.render limit
      let head := "fn(" ++ ", ".intercalate params ++ ") "
      return if text.isEmpty then head ++ "\x7b \x7d" else head ++ "\x7b " ++ text ++ " \x7d"
    | .builtin _ => .ok "builtin function"
    | .returned value => inspect limit value
    | .error _ message => .ok message

end Capuchin
