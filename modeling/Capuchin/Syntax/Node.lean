import Capuchin.Syntax.Operator

/-! Syntax trees. One type covers programs, statements and expressions, because evaluation and
printing treat a node the same wherever it stands, also where no source text would put it. -/

namespace Capuchin

inductive Node where
  /-- A part that is missing; it evaluates to null and cannot be printed. -/
  | absent
  | program (statements : List Node)
  | block (statements : List Node)
  | letStmt (name : String) (value : Node)
  | returnStmt (value : Node)
  | exprStmt (expression : Node)
  | ident (name : String)
  | int (value : Int)
  | str (text : String)
  | bool (value : Bool)
  | array (elements : List Node)
  | hash (pairs : List (Node × Node))
  | fn (params : List String) (body : Node)
  | unary (op : UnaryOp) (right : Node)
  | binary (left : Node) (op : BinaryOp) (right : Node)
  | index (left : Node) (position : Node)
  | call (callee : Node) (args : List Node)
  | ifThen (condition : Node) (consequence : Node)
  | ifElse (condition : Node) (consequence : Node) (alternative : Node)

/-- What kind of node it is, in words of the debug log. -/
def Node.label : Node → String
  | .absent => "NoneType"
  | .program _ => "Program"
  | .block _ => "BlockStatement"
  | .letStmt _ _ => "LetStatement"
  | .returnStmt _ => "ReturnStatement"
  | .exprStmt _ => "ExpressionStatement"
  | .ident _ => "Identifier"
  | .int _ => "IntegerLiteral"
  | .str _ => "StringLiteral"
  | .bool _ => "BooleanLiteral"
  | .array _ => "ArrayLiteral"
  | .hash _ => "HashLiteral"
  | .fn _ _ => "FunctionLiteral"
  | .unary _ _ => "PrefixExpression"
  | .binary _ _ _ => "InfixExpression"
  | .index _ _ => "IndexExpression"
  | .call _ _ => "CallExpression"
  | .ifThen _ _ | .ifElse _ _ _ => "IfExpression"

mutual

/-- Whether two trees are equal, part by part. -/
def Node.same : Node → Node → Bool
  | .absent, .absent => true
  | .program a, .program b => Node.sameAll a b
  | .block a, .block b => Node.sameAll a b
  | .letStmt n a, .letStmt m b => n == m && a.same b
  | .returnStmt a, .returnStmt b => a.same b
  | .exprStmt a, .exprStmt b => a.same b
  | .ident n, .ident m => n == m
  | .int n, .int m => n == m
  | .str n, .str m => n == m
  | .bool n, .bool m => n == m
  | .array a, .array b => Node.sameAll a b
  | .hash a, .hash b => Node.samePairs a b
  | .fn n a, .fn m b => n == m && a.same b
  | .unary n a, .unary m b => n == m && a.same b
  | .binary a n c, .binary b m d => a.same b && n == m && c.same d
  | .index a c, .index b d => a.same b && c.same d
  | .call a c, .call b d => a.same b && Node.sameAll c d
  | .ifThen a c, .ifThen b d => a.same b && c.same d
  | .ifElse a c e, .ifElse b d f => a.same b && c.same d && e.same f
  | _, _ => false

def Node.sameAll : List Node → List Node → Bool
  | [], [] => true
  | a :: as, b :: bs => a.same b && Node.sameAll as bs
  | _, _ => false

def Node.samePairs : List (Node × Node) → List (Node × Node) → Bool
  | [], [] => true
  | (a, c) :: as, (b, d) :: bs => a.same b && c.same d && Node.samePairs as bs
  | _, _ => false

end

mutual

private theorem Node.same_iff : (a b : Node) → (a.same b = true ↔ a = b)
  | .absent, b => by cases b <;> simp [Node.same]
  | .program as, b => by cases b <;> simp [Node.same, Node.sameAll_iff as]
  | .block as, b => by cases b <;> simp [Node.same, Node.sameAll_iff as]
  | .letStmt _ a, b => by cases b <;> simp [Node.same, Node.same_iff a]
  | .returnStmt a, b => by cases b <;> simp [Node.same, Node.same_iff a]
  | .exprStmt a, b => by cases b <;> simp [Node.same, Node.same_iff a]
  | .ident _, b => by cases b <;> simp [Node.same]
  | .int _, b => by cases b <;> simp [Node.same]
  | .str _, b => by cases b <;> simp [Node.same]
  | .bool _, b => by cases b <;> simp [Node.same]
  | .array as, b => by cases b <;> simp [Node.same, Node.sameAll_iff as]
  | .hash as, b => by cases b <;> simp [Node.same, Node.samePairs_iff as]
  | .fn _ a, b => by cases b <;> simp [Node.same, Node.same_iff a]
  | .unary _ a, b => by cases b <;> simp [Node.same, Node.same_iff a]
  | .binary a _ c, b => by
    cases b <;> simp [Node.same, Node.same_iff a, Node.same_iff c, and_assoc]
  | .index a c, b => by cases b <;> simp [Node.same, Node.same_iff a, Node.same_iff c]
  | .call a cs, b => by cases b <;> simp [Node.same, Node.same_iff a, Node.sameAll_iff cs]
  | .ifThen a c, b => by cases b <;> simp [Node.same, Node.same_iff a, Node.same_iff c]
  | .ifElse a c e, b => by
    cases b <;> simp [Node.same, Node.same_iff a, Node.same_iff c, Node.same_iff e, and_assoc]

private theorem Node.sameAll_iff : (as bs : List Node) → (Node.sameAll as bs = true ↔ as = bs)
  | [], bs => by cases bs <;> simp [Node.sameAll]
  | a :: as, bs => by cases bs <;> simp [Node.sameAll, Node.same_iff a, Node.sameAll_iff as]

private theorem Node.samePairs_iff :
    (as bs : List (Node × Node)) → (Node.samePairs as bs = true ↔ as = bs)
  | [], bs => by cases bs <;> simp [Node.samePairs]
  | (a, c) :: as, bs => by
    cases bs <;>
      simp [Node.samePairs, Prod.ext_iff, Node.same_iff a, Node.same_iff c, Node.samePairs_iff as]

end

instance : DecidableEq Node := fun a b =>
  decidable_of_iff (a.same b = true) (Node.same_iff a b)

end Capuchin
