import Capuchin.Syntax.Node
import Capuchin.Token.Basic
import Capuchin.Decimal

/-! The grammar of the Monkey language as a relation between tokens and trees, told by tiers
rather than by binding strengths and without any order of reading. How a reader finds the
derivation is not part of it. -/

namespace Capuchin.Grammar

/-- Tiers of expressions, from the loosest to the tightest. -/
inductive Tier where
  | equality | comparison | sum | product | unary | applied | primary
  deriving DecidableEq

def Tier.above : Tier → Tier
  | equality => comparison
  | comparison => sum
  | sum => product
  | product => unary
  | unary => applied
  | applied => primary
  | primary => primary

/-- The infix operator a mark writes, with the tier it belongs to. -/
def operator? : Mark → Option (Tier × BinaryOp)
  | .eq => some (.equality, .eq)
  | .notEq => some (.equality, .notEq)
  | .lt => some (.comparison, .lt)
  | .gt => some (.comparison, .gt)
  | .plus => some (.sum, .plus)
  | .minus => some (.sum, .minus)
  | .asterisk => some (.product, .times)
  | .slash => some (.product, .divide)
  | _ => none

/-- The ten tokens that can go on with an expression: the infix operators, a call and an index. -/
def joins : Token → Bool
  | .mark .lparen => true
  | .mark .lbracket => true
  | .mark mark => (operator? mark).isSome
  | _ => false

/-- What tokens can spell: the categories of the grammar with the trees they stand for. -/
inductive Phrase where
  | statements (nodes : List Node)
  | statement (node : Node)
  | expression (tier : Tier) (node : Node)
  | block (node : Node)
  /-- Expressions between commas, none allowed. -/
  | list (nodes : List Node)
  /-- Expressions between commas, at least one. -/
  | items (nodes : List Node)
  | entries (pairs : List (Node × Node))
  /-- Parameters between commas, none allowed. -/
  | params (names : List String)
  /-- Parameters between commas, at least one. -/
  | names (names : List String)

abbrev Phrase.whole (node : Node) : Phrase :=
  .expression .equality node

/-- `Spells tokens phrase`: the tokens derive the phrase. -/
inductive Spells : List Token → Phrase → Prop where
  | empty : Spells [] (.statements [])
  | closed (first : Spells tokens (.statement node)) (rest : Spells others (.statements nodes)) :
      Spells (tokens ++ .mark .semicolon :: others) (.statements (node :: nodes))
  -- Without its semicolon a statement ends only before a token that cannot go on with it.
  | unclosed (first : Spells tokens (.statement node)) (rest : Spells others (.statements nodes))
      (apart : ∀ token ∈ others.head?, joins token = false) :
      Spells (tokens ++ others) (.statements (node :: nodes))
  | letStmt (value : Spells tokens (.whole node)) :
      Spells (.keyword .letWord :: .ident name :: .mark .assign :: tokens)
        (.statement (.letStmt name node))
  | returnStmt (value : Spells tokens (.whole node)) :
      Spells (.keyword .returnWord :: tokens) (.statement (.returnStmt node))
  | exprStmt (expression : Spells tokens (.whole node)) :
      Spells tokens (.statement (.exprStmt node))
  | loosen (inner : Spells tokens (.expression tier.above node)) :
      Spells tokens (.expression tier node)
  | binary (left : Spells before (.expression tier leftNode))
      (written : operator? mark = some (tier, op))
      (right : Spells after (.expression tier.above rightNode)) :
      Spells (before ++ .mark mark :: after) (.expression tier (.binary leftNode op rightNode))
  | bang (operand : Spells tokens (.expression .unary node)) :
      Spells (.mark .bang :: tokens) (.expression .unary (.unary .bang node))
  | minus (operand : Spells tokens (.expression .unary node)) :
      Spells (.mark .minus :: tokens) (.expression .unary (.unary .minus node))
  | call (callee : Spells tokens (.expression .applied node)) (args : Spells inside (.list nodes)) :
      Spells (tokens ++ .mark .lparen :: (inside ++ [.mark .rparen]))
        (.expression .applied (.call node nodes))
  | index (left : Spells tokens (.expression .applied node))
      (position : Spells inside (.whole positionNode)) :
      Spells (tokens ++ .mark .lbracket :: (inside ++ [.mark .rbracket]))
        (.expression .applied (.index node positionNode))
  | ident : Spells [.ident name] (.expression .primary (.ident name))
  | int : Spells [.int digits] (.expression .primary (.int (Decimal.read digits)))
  | str : Spells [.str text] (.expression .primary (.str text))
  | yes : Spells [.keyword .trueWord] (.expression .primary (.bool true))
  | no : Spells [.keyword .falseWord] (.expression .primary (.bool false))
  | group (inner : Spells tokens (.whole node)) :
      Spells (.mark .lparen :: (tokens ++ [.mark .rparen])) (.expression .primary node)
  | ifThen (condition : Spells tokens (.whole node)) (consequence : Spells body (.block thenNode)) :
      Spells (.keyword .ifWord :: .mark .lparen :: (tokens ++ .mark .rparen :: body))
        (.expression .primary (.ifThen node thenNode))
  | ifElse (condition : Spells tokens (.whole node)) (consequence : Spells body (.block thenNode))
      (alternative : Spells other (.block elseNode)) :
      Spells (.keyword .ifWord :: .mark .lparen ::
          (tokens ++ .mark .rparen :: (body ++ .keyword .elseWord :: other)))
        (.expression .primary (.ifElse node thenNode elseNode))
  | fn (params : Spells tokens (.params names)) (body : Spells text (.block node)) :
      Spells (.keyword .fnWord :: .mark .lparen :: (tokens ++ .mark .rparen :: text))
        (.expression .primary (.fn names node))
  | array (elements : Spells inside (.list nodes)) :
      Spells (.mark .lbracket :: (inside ++ [.mark .rbracket]))
        (.expression .primary (.array nodes))
  | hash (entries : Spells inside (.entries pairs)) :
      Spells (.mark .lbrace :: (inside ++ [.mark .rbrace])) (.expression .primary (.hash pairs))
  | block (inside : Spells tokens (.statements nodes)) :
      Spells (.mark .lbrace :: (tokens ++ [.mark .rbrace])) (.block (.block nodes))
  | noItems : Spells [] (.list [])
  | someItems (items : Spells tokens (.items nodes)) : Spells tokens (.list nodes)
  | lastItem (item : Spells tokens (.whole node)) : Spells tokens (.items [node])
  | moreItems (item : Spells tokens (.whole node)) (rest : Spells others (.items nodes)) :
      Spells (tokens ++ .mark .comma :: others) (.items (node :: nodes))
  | noEntries : Spells [] (.entries [])
  | lastEntry (key : Spells tokens (.whole keyNode)) (value : Spells valueTokens (.whole node)) :
      Spells (tokens ++ .mark .colon :: valueTokens) (.entries [(keyNode, node)])
  -- The entries after a comma may be none, which allows one comma at the end.
  | moreEntries (key : Spells tokens (.whole keyNode)) (value : Spells valueTokens (.whole node))
      (rest : Spells others (.entries pairs)) :
      Spells (tokens ++ .mark .colon :: (valueTokens ++ .mark .comma :: others))
        (.entries ((keyNode, node) :: pairs))
  | noParams : Spells [] (.params [])
  | someParams (names : Spells tokens (.names params)) : Spells tokens (.params params)
  | lastName : Spells [.ident name] (.names [name])
  | moreNames (rest : Spells others (.names names)) :
      Spells (.ident name :: .mark .comma :: others) (.names (name :: names))

/-- `Program tokens tree`: the tokens, without the end mark, derive the program. -/
def Program (tokens : List Token) (tree : Node) : Prop :=
  ∃ nodes, tree = .program nodes ∧ Spells tokens (.statements nodes)

/-- Position of a tier on the ladder. -/
def Tier.rank : Tier → Nat
  | equality => 0
  | comparison => 1
  | sum => 2
  | product => 3
  | unary => 4
  | applied => 5
  | primary => 6

theorem Tier.rank_above (tier : Tier) (below : tier.rank < 6) : tier.above.rank = tier.rank + 1 := by
  cases tier <;> simp [above, rank] at below ⊢

theorem Tier.rank_injective {first second : Tier} (same : first.rank = second.rank) :
    first = second := by
  cases first <;> cases second <;> first | rfl | simp [rank] at same

theorem Tier.rank_le (tier : Tier) : tier.rank ≤ 6 := by
  cases tier <;> decide

/-- A tighter expression stands on every looser tier. -/
theorem Spells.loosen_to {inner outer : Tier}
    (spelled : Spells tokens (.expression inner node)) (order : outer.rank ≤ inner.rank) :
    Spells tokens (.expression outer node) := by
  by_cases same : outer.rank = inner.rank
  · rw [Tier.rank_injective same]
    exact spelled
  · have bound := inner.rank_le
    have step := outer.rank_above (by omega)
    exact .loosen (spelled.loosen_to (by omega))
termination_by inner.rank - outer.rank

theorem Spells.expression_ne_nil (spelled : Spells tokens (.expression tier node)) :
    tokens ≠ [] := by
  generalize same : Phrase.expression tier node = phrase at spelled
  induction spelled generalizing tier node <;> simp_all

theorem Spells.eof_notMem (spelled : Spells tokens phrase) : Token.eof ∉ tokens := by
  induction spelled <;> simp_all

end Capuchin.Grammar
