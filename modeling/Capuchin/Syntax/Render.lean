import Capuchin.Decimal
import Capuchin.Fault
import Capuchin.Syntax.Node

namespace Capuchin

/-- Text of a body in braces, where `text` writes a list of statements; no other node can be put
in braces. -/
def Node.braced (text : Node → Except Fault String) (body : Node) : Except Fault String :=
  match body with
  | .program [] | .block [] => .ok "\x7b \x7d"
  | .program _ | .block _ => return "\x7b " ++ (← text body) ++ " \x7d"
  | _ => .error (.noStatements body.label)

/-- Source text of a node; parts are written from left to right. `limit` bounds how deep nodes may
nest. -/
def Node.render : Nat → Node → Except Fault String
  | 0, _ => .error .overflow
  | limit + 1, node =>
    match node with
    | .absent => .error .missingNode
    | .program statements => return "\n".intercalate (← statements.mapM (render limit))
    | .block statements => return "\n".intercalate (← statements.mapM (render limit))
    | .letStmt name value => return "let " ++ name ++ " = " ++ (← render limit value) ++ ";"
    | .returnStmt value => return "return " ++ (← render limit value) ++ ";"
    | .exprStmt expression => return (← render limit expression) ++ ";"
    | .ident name => .ok name
    | .int value => .ok (Decimal.write value)
    | .str text => .ok ("\"" ++ text ++ "\"")
    | .bool value => .ok (if value then "true" else "false")
    | .array elements => return "[" ++ ", ".intercalate (← elements.mapM (render limit)) ++ "]"
    | .hash pairs => do
      let texts ← pairs.mapM fun (key, value) =>
        return (← render limit key) ++ ": " ++ (← render limit value)
      return "\x7b" ++ ", ".intercalate texts ++ "\x7d"
    | .fn params body =>
      return "fn(" ++ ", ".intercalate params ++ ") " ++ (← braced (render limit) body)
    | .unary op right => return "(" ++ op.symbol ++ (← render limit right) ++ ")"
    | .binary left op right =>
      return "(" ++ (← render limit left) ++ " " ++ op.symbol ++ " " ++ (← render limit right)
        ++ ")"
    | .index left position =>
      return "(" ++ (← render limit left) ++ "[" ++ (← render limit position) ++ "])"
    | .call callee args =>
      return (← render limit callee) ++ "(" ++ ", ".intercalate (← args.mapM (render limit)) ++ ")"
    | .ifThen condition consequence =>
      return "if (" ++ (← render limit condition) ++ ") " ++ (← braced (render limit) consequence)
    | .ifElse condition consequence alternative =>
      return "if (" ++ (← render limit condition) ++ ") " ++ (← braced (render limit) consequence)
        ++ " else " ++ (← braced (render limit) alternative)

end Capuchin
