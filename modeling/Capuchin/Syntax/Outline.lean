import Capuchin.Decimal
import Capuchin.Fault
import Capuchin.Syntax.Node
import Capuchin.Text.Quoted

namespace Capuchin

/-- A node's label with its named parts. -/
def Node.labelled (node : Node) (parts : List (String × String)) : String :=
  node.label ++ "(" ++ ", ".intercalate (parts.map fun (name, text) => name ++ "=" ++ text) ++ ")"

/-- Texts in brackets. -/
def Node.bracketed (texts : List String) : String :=
  "[" ++ ", ".intercalate texts ++ "]"

/-- Outline of an identifier. -/
def Node.outlineName (name : String) : String :=
  labelled (.ident name) [("value", Quoted.quote name)]

/-- Outline of a node; parts are outlined from left to right. -/
def Node.outline : Nat → Node → Except Fault String
  | 0, _ => .error .overflow
  | limit + 1, node =>
    match node with
    | .absent => .ok "None"
    | .program statements =>
      return labelled node [("statements", bracketed (← statements.mapM (outline limit)))]
    | .block statements =>
      return labelled node
        [("statements", bracketed (← statements.mapM (outline limit)))]
    | .letStmt name value =>
      return labelled node
        [("name", outlineName name), ("value", ← outline limit value)]
    | .returnStmt value =>
      return labelled node [("return_value", ← outline limit value)]
    | .exprStmt expression =>
      return labelled node [("expression", ← outline limit expression)]
    | .ident name => .ok (outlineName name)
    | .int value => .ok (labelled node [("value", Decimal.write value)])
    | .str text => .ok (labelled node [("value", Quoted.quote text)])
    | .bool value =>
      .ok (labelled node [("value", if value then "True" else "False")])
    | .array elements =>
      return labelled node [("elements", bracketed (← elements.mapM (outline limit)))]
    | .hash pairs => do
      let texts ← pairs.mapM fun (key, value) =>
        return "(" ++ (← outline limit key) ++ ", " ++ (← outline limit value) ++ ")"
      return labelled node [("pairs", bracketed texts)]
    | .fn params body =>
      return labelled node
        [("parameters", bracketed (params.map outlineName)), ("body", ← outline limit body)]
    | .unary op right =>
      return labelled node
        [("operator", Quoted.quote op.symbol), ("right", ← outline limit right)]
    | .binary left op right =>
      return labelled node
        [("left", ← outline limit left), ("operator", Quoted.quote op.symbol),
          ("right", ← outline limit right)]
    | .index left position =>
      return labelled node
        [("left", ← outline limit left), ("index", ← outline limit position)]
    | .call callee args =>
      return labelled node
        [("function", ← outline limit callee),
          ("arguments", bracketed (← args.mapM (outline limit)))]
    | .ifThen condition consequence =>
      return labelled node
        [("condition", ← outline limit condition), ("consequence", ← outline limit consequence),
          ("alternative", "None")]
    | .ifElse condition consequence alternative =>
      return labelled node
        [("condition", ← outline limit condition), ("consequence", ← outline limit consequence),
          ("alternative", ← outline limit alternative)]

end Capuchin
