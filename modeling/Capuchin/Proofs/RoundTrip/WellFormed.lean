import Capuchin.Proofs.Grammar.Basic
import Capuchin.Proofs.Token.Scan

namespace Capuchin

/-- What a node is good for. -/
inductive Role where
  | program | statement | block | expression
  deriving DecidableEq

inductive WellFormed : Role → Node → Prop where
  | program (each : ∀ statement ∈ statements, WellFormed .statement statement) :
      WellFormed .program (.program statements)
  | letStmt (named : IsName name) (value : WellFormed .expression node) :
      WellFormed .statement (.letStmt name node)
  | returnStmt (value : WellFormed .expression node) : WellFormed .statement (.returnStmt node)
  | exprStmt (expression : WellFormed .expression node) : WellFormed .statement (.exprStmt node)
  | block (each : ∀ statement ∈ statements, WellFormed .statement statement) :
      WellFormed .block (.block statements)
  | ident (named : IsName name) : WellFormed .expression (.ident name)
  | int (unsigned : 0 ≤ value) : WellFormed .expression (.int value)
  | str (plain : '"' ∉ text.toList) : WellFormed .expression (.str text)
  | bool : WellFormed .expression (.bool value)
  | array (each : ∀ element ∈ elements, WellFormed .expression element) :
      WellFormed .expression (.array elements)
  | hash (keys : ∀ pair ∈ pairs, WellFormed .expression pair.1)
      (values : ∀ pair ∈ pairs, WellFormed .expression pair.2) :
      WellFormed .expression (.hash pairs)
  | fn (named : ∀ name ∈ params, IsName name) (body : WellFormed .block node) :
      WellFormed .expression (.fn params node)
  | unary (written : op ∈ [.bang, .minus]) (right : WellFormed .expression node) :
      WellFormed .expression (.unary op node)
  | binary (left : WellFormed .expression leftNode) (written : op ∈ BinaryOp.written)
      (right : WellFormed .expression rightNode) :
      WellFormed .expression (.binary leftNode op rightNode)
  | index (left : WellFormed .expression node) (position : WellFormed .expression positionNode) :
      WellFormed .expression (.index node positionNode)
  | call (callee : WellFormed .expression node)
      (each : ∀ arg ∈ args, WellFormed .expression arg) :
      WellFormed .expression (.call node args)
  | ifThen (condition : WellFormed .expression node) (consequence : WellFormed .block thenNode) :
      WellFormed .expression (.ifThen node thenNode)
  | ifElse (condition : WellFormed .expression node) (consequence : WellFormed .block thenNode)
      (alternative : WellFormed .block elseNode) :
      WellFormed .expression (.ifElse node thenNode elseNode)

namespace Grammar

/-- The nodes of a phrase are well-formed in their roles. -/
def Phrase.Valid : Phrase → Prop
  | .statements nodes => ∀ node ∈ nodes, WellFormed .statement node
  | .statement node => WellFormed .statement node
  | .expression _ node => WellFormed .expression node
  | .block node => WellFormed .block node
  | .list nodes | .items nodes => ∀ node ∈ nodes, WellFormed .expression node
  | .entries pairs => ∀ pair ∈ pairs,
      WellFormed .expression pair.1 ∧ WellFormed .expression pair.2
  | .params all | .names all => ∀ name ∈ all, IsName name

theorem operator?_written (written : operator? mark = some (tier, op)) : op ∈ BinaryOp.written := by
  cases mark <;> simp [operator?] at written <;> obtain ⟨_, rfl⟩ := written <;> decide

/-- Tokens of a source text spell well-formed trees only. -/
theorem Spells.wellFormed (spelled : Spells tokens phrase)
    (lexical : ∀ token ∈ tokens, token.Lexical) : phrase.Valid := by
  induction spelled with
  | empty => simp [Phrase.Valid]
  | closed _ _ first rest =>
    have one := first fun token member => lexical token (by simp [member])
    have others := rest fun token member => lexical token (by simp [member])
    exact List.forall_mem_cons.mpr ⟨one, others⟩
  | unclosed _ _ _ first rest =>
    have one := first fun token member => lexical token (by simp [member])
    have others := rest fun token member => lexical token (by simp [member])
    exact List.forall_mem_cons.mpr ⟨one, others⟩
  | @letStmt tokens node name _ value =>
    have named : IsName name := lexical (.ident name) (by simp)
    exact .letStmt named (value fun token member => lexical token (by simp [member]))
  | returnStmt _ value =>
    exact .returnStmt (value fun token member => lexical token (by simp [member]))
  | exprStmt _ expression => exact .exprStmt (expression lexical)
  | loosen _ inner => exact inner lexical
  | binary _ written _ left right =>
    exact .binary (left fun token member => lexical token (by simp [member]))
      (operator?_written written) (right fun token member => lexical token (by simp [member]))
  | bang _ operand =>
    exact .unary (by simp) (operand fun token member => lexical token (by simp [member]))
  | minus _ operand =>
    exact .unary (by simp) (operand fun token member => lexical token (by simp [member]))
  | call _ _ callee args =>
    exact .call (callee fun token member => lexical token (by simp [member]))
      (args fun token member => lexical token (by simp [member]))
  | index _ _ left position =>
    exact .index (left fun token member => lexical token (by simp [member]))
      (position fun token member => lexical token (by simp [member]))
  | @ident name => exact .ident (lexical (.ident name) (by simp))
  | int => exact .int (Int.natCast_nonneg _)
  | @str text => exact .str (lexical (.str text) (by simp))
  | yes => exact .bool
  | no => exact .bool
  | group _ inner => exact inner fun token member => lexical token (by simp [member])
  | ifThen _ _ condition consequence =>
    exact .ifThen (condition fun token member => lexical token (by simp [member]))
      (consequence fun token member => lexical token (by simp [member]))
  | ifElse _ _ _ condition consequence alternative =>
    exact .ifElse (condition fun token member => lexical token (by simp [member]))
      (consequence fun token member => lexical token (by simp [member]))
      (alternative fun token member => lexical token (by simp [member]))
  | fn _ _ params body =>
    exact .fn (params fun token member => lexical token (by simp [member]))
      (body fun token member => lexical token (by simp [member]))
  | array _ elements =>
    exact .array (elements fun token member => lexical token (by simp [member]))
  | hash _ entries =>
    have pairs := entries fun token member => lexical token (by simp [member])
    exact .hash (fun pair member => (pairs pair member).1) fun pair member => (pairs pair member).2
  | block _ inside => exact .block (inside fun token member => lexical token (by simp [member]))
  | noItems => simp [Phrase.Valid]
  | someItems _ items => exact items lexical
  | lastItem _ item => exact List.forall_mem_singleton.mpr (item lexical)
  | moreItems _ _ item rest =>
    have one := item fun token member => lexical token (by simp [member])
    have others := rest fun token member => lexical token (by simp [member])
    exact List.forall_mem_cons.mpr ⟨one, others⟩
  | noEntries => simp [Phrase.Valid]
  | lastEntry _ _ key value =>
    exact List.forall_mem_singleton.mpr
      ⟨key fun token member => lexical token (by simp [member]),
        value fun token member => lexical token (by simp [member])⟩
  | moreEntries _ _ _ key value rest =>
    have one := key fun token member => lexical token (by simp [member])
    have two := value fun token member => lexical token (by simp [member])
    have others := rest fun token member => lexical token (by simp [member])
    exact List.forall_mem_cons.mpr ⟨⟨one, two⟩, others⟩
  | noParams => simp [Phrase.Valid]
  | someParams _ names => exact names lexical
  | @lastName name => exact List.forall_mem_singleton.mpr (lexical (.ident name) (by simp))
  | @moreNames others names name _ rest =>
    have one : IsName name := lexical (.ident name) (by simp)
    have more := rest fun token member => lexical token (by simp [member])
    exact List.forall_mem_cons.mpr ⟨one, more⟩

theorem Program.wellFormed (derived : Program tokens tree)
    (lexical : ∀ token ∈ tokens, token.Lexical) : WellFormed .program tree := by
  obtain ⟨nodes, rfl, spelled⟩ := derived
  exact .program (spelled.wellFormed lexical)

end Grammar

end Capuchin
