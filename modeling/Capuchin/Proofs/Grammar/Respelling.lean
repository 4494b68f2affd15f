import Capuchin.Parse.Feed

namespace Capuchin

/-- The token with a string literal spelled in another way. -/
def Token.respell (spell : String → String) : Token → Token
  | .str text => .str (spell text)
  | token => token

mutual

/-- The tree with all its string literals spelled in another way. -/
def Node.respell (spell : String → String) : Node → Node
  | .str text => .str (spell text)
  | .absent => .absent
  | .program statements => .program (Node.respellAll spell statements)
  | .block statements => .block (Node.respellAll spell statements)
  | .letStmt name value => .letStmt name (value.respell spell)
  | .returnStmt value => .returnStmt (value.respell spell)
  | .exprStmt expression => .exprStmt (expression.respell spell)
  | .ident name => .ident name
  | .int value => .int value
  | .bool value => .bool value
  | .array elements => .array (Node.respellAll spell elements)
  | .hash pairs => .hash (Node.respellPairs spell pairs)
  | .fn params body => .fn params (body.respell spell)
  | .unary op right => .unary op (right.respell spell)
  | .binary left op right => .binary (left.respell spell) op (right.respell spell)
  | .index left position => .index (left.respell spell) (position.respell spell)
  | .call callee args => .call (callee.respell spell) (Node.respellAll spell args)
  | .ifThen condition consequence =>
    .ifThen (condition.respell spell) (consequence.respell spell)
  | .ifElse condition consequence alternative =>
    .ifElse (condition.respell spell) (consequence.respell spell) (alternative.respell spell)

def Node.respellAll (spell : String → String) : List Node → List Node
  | [] => []
  | node :: nodes => node.respell spell :: Node.respellAll spell nodes

def Node.respellPairs (spell : String → String) : List (Node × Node) → List (Node × Node)
  | [] => []
  | (key, value) :: pairs =>
    (key.respell spell, value.respell spell) :: Node.respellPairs spell pairs

end

namespace Parse

mutual

def Site.respell (spell : String → String) : Site → Site
  | .program => .program
  | .thenBranch hole condition => .thenBranch (hole.respell spell) (condition.respell spell)
  | .elseBranch hole condition consequence =>
    .elseBranch (hole.respell spell) (condition.respell spell) (consequence.respell spell)
  | .body hole params => .body (hole.respell spell) params

/-- The place with all that was read before it respelled. -/
def Hole.respell (spell : String → String) : Hole → Hole
  | .letValue site done name => .letValue (site.respell spell) (Node.respellAll spell done) name
  | .returnValue site done => .returnValue (site.respell spell) (Node.respellAll spell done)
  | .statement site done => .statement (site.respell spell) (Node.respellAll spell done)
  | .operand hole op => .operand (hole.respell spell) op
  | .right hole left op => .right (hole.respell spell) (left.respell spell) op
  | .group hole => .group (hole.respell spell)
  | .condition hole => .condition (hole.respell spell)
  | .element hole done => .element (hole.respell spell) (Node.respellAll spell done)
  | .argument hole callee done =>
    .argument (hole.respell spell) (callee.respell spell) (Node.respellAll spell done)
  | .key hole done => .key (hole.respell spell) (Node.respellPairs spell done)
  | .value hole done label =>
    .value (hole.respell spell) (Node.respellPairs spell done) (label.respell spell)
  | .position hole left => .position (hole.respell spell) (left.respell spell)

end

def State.respell (spell : String → String) : State → State
  | .statement site done => .statement (site.respell spell) (Node.respellAll spell done)
  | .letName site done => .letName (site.respell spell) (Node.respellAll spell done)
  | .letAssign site done name => .letAssign (site.respell spell) (Node.respellAll spell done) name
  | .operand hole => .operand (hole.respell spell)
  | .operator hole expression => .operator (hole.respell spell) (expression.respell spell)
  | .ifOpen hole => .ifOpen (hole.respell spell)
  | .thenOpen hole condition => .thenOpen (hole.respell spell) (condition.respell spell)
  | .thenDone hole condition consequence =>
    .thenDone (hole.respell spell) (condition.respell spell) (consequence.respell spell)
  | .elseOpen hole condition consequence =>
    .elseOpen (hole.respell spell) (condition.respell spell) (consequence.respell spell)
  | .fnOpen hole => .fnOpen (hole.respell spell)
  | .firstParam hole => .firstParam (hole.respell spell)
  | .nextParam hole params => .nextParam (hole.respell spell) params
  | .paramDone hole params => .paramDone (hole.respell spell) params
  | .bodyOpen hole params => .bodyOpen (hole.respell spell) params
  | .firstElement hole => .firstElement (hole.respell spell)
  | .firstArgument hole callee => .firstArgument (hole.respell spell) (callee.respell spell)
  | .hashEntry hole done => .hashEntry (hole.respell spell) (Node.respellPairs spell done)
  | .finished statements => .finished (Node.respellAll spell statements)

abbrev Step.respell (spell : String → String) (step : Step) : Step :=
  step.map (State.respell spell)

end Parse

variable {limit : Nat} (spell : String → String)

section Tokens

@[simp] theorem kind_respell (token : Token) : (token.respell spell).kind = token.kind := by
  cases token <;> rfl

@[simp] theorem respell_eq_mark (token : Token) (mark : Mark) :
    token.respell spell = .mark mark ↔ token = .mark mark := by
  cases token <;> simp [Token.respell]

@[simp] theorem respell_eq_keyword (token : Token) (keyword : Keyword) :
    token.respell spell = .keyword keyword ↔ token = .keyword keyword := by
  cases token <;> simp [Token.respell]

@[simp] theorem tighter?_respell (level : Nat) (token : Token) :
    Parse.tighter? level (token.respell spell) = Parse.tighter? level token := by
  cases token <;> rfl

@[simp] theorem respellAll_concat (nodes : List Node) (node : Node) :
    Node.respellAll spell (nodes ++ [node]) =
      Node.respellAll spell nodes ++ [node.respell spell] := by
  induction nodes with
  | nil => rfl
  | cons first nodes ih => exact congrArg (_ :: ·) ih

@[simp] theorem respellPairs_concat (pairs : List (Node × Node)) (key value : Node) :
    Node.respellPairs spell (pairs ++ [(key, value)]) =
      Node.respellPairs spell pairs ++ [(key.respell spell, value.respell spell)] := by
  induction pairs with
  | nil => rfl
  | cons first pairs ih => exact congrArg (_ :: ·) ih

end Tokens

namespace Parse

mutual

theorem Site.depth_respell : (site : Site) → (site.respell spell).depth = site.depth
  | .program => rfl
  | .thenBranch hole _ => hole.depth_respell
  | .elseBranch hole _ _ => hole.depth_respell
  | .body hole _ => hole.depth_respell

theorem Hole.depth_respell : (hole : Hole) → (hole.respell spell).depth = hole.depth
  | .letValue site _ _ => congrArg (· + 1) site.depth_respell
  | .returnValue site _ => congrArg (· + 1) site.depth_respell
  | .statement site _ => congrArg (· + 1) site.depth_respell
  | .operand hole _ => congrArg (· + 1) hole.depth_respell
  | .right hole _ _ => congrArg (· + 1) hole.depth_respell
  | .group hole => congrArg (· + 1) hole.depth_respell
  | .condition hole => congrArg (· + 1) hole.depth_respell
  | .element hole _ => congrArg (· + 1) hole.depth_respell
  | .argument hole _ _ => congrArg (· + 1) hole.depth_respell
  | .key hole _ => congrArg (· + 1) hole.depth_respell
  | .value hole _ _ => congrArg (· + 1) hole.depth_respell
  | .position hole _ => congrArg (· + 1) hole.depth_respell

end

theorem level_respell (hole : Hole) : (hole.respell spell).level = hole.level := by
  cases hole <;> rfl

theorem expect_respell (mark : Mark) (token : Token) (step : Step) :
    expect mark (token.respell spell) (step.respell spell) =
      (expect mark token step).respell spell := by
  simp only [expect, respell_eq_mark, kind_respell]
  split <;> rfl

theorem enter_respell (hole : Hole) :
    (hole.respell spell).enter limit = (hole.enter limit).respell spell := by
  unfold Hole.enter
  rw [Hole.depth_respell]
  split <;> rfl

theorem begin_respell (hole : Hole) (token : Token) :
    (hole.respell spell).begin limit (token.respell spell) =
      (hole.begin limit token).respell spell := by
  cases token with
  | mark mark =>
    cases mark with
    | bang => exact enter_respell spell (.operand hole .bang)
    | minus => exact enter_respell spell (.operand hole .minus)
    | lparen => exact enter_respell spell (.group hole)
    | _ => rfl
  | keyword keyword => cases keyword <;> rfl
  | _ => rfl

theorem enterWith_respell (hole : Hole) (token : Token) :
    (hole.respell spell).enterWith limit (token.respell spell) =
      (hole.enterWith limit token).respell spell := by
  unfold Hole.enterWith
  rw [Hole.depth_respell]
  split
  · exact begin_respell spell hole token
  · rfl

theorem start_respell (site : Site) (done : List Node) (token : Token) :
    (site.respell spell).start limit (Node.respellAll spell done) (token.respell spell) =
      (site.start limit done token).respell spell := by
  have other := @enterWith_respell limit spell (.statement site done) token
  cases token with
  | eof => cases site <;> rfl
  | mark mark =>
    cases mark with
    | rbrace =>
      cases site with
      | program => exact other
      | _ => rfl
    | _ => exact other
  | keyword keyword =>
    cases keyword with
    | letWord => rfl
    | returnWord => exact enter_respell spell (.returnValue site done)
    | _ => exact other
  | _ => exact other

theorem next_respell (site : Site) (done : List Node) (token : Token) :
    (site.respell spell).next limit (Node.respellAll spell done) (token.respell spell) =
      (site.next limit done token).respell spell := by
  simp only [Site.next, respell_eq_mark]
  split
  · rfl
  · exact start_respell spell site done token

theorem extend_respell (hole : Hole) (expression : Node) (next : Continuation) :
    (hole.respell spell).extend limit (expression.respell spell) next =
      (hole.extend limit expression next).respell spell := by
  cases next with
  | binary op => exact enter_respell spell (.right hole expression op)
  | call => rfl
  | index => exact enter_respell spell (.position hole expression)

theorem resume_respell (token : Token) : (hole : Hole) → (expression : Node) →
    (hole.respell spell).resume limit (token.respell spell) (expression.respell spell) =
      (hole.resume limit token expression).respell spell := by
  intro hole expression
  rw [Hole.resume.eq_def, Hole.resume.eq_def limit token hole, level_respell, tighter?_respell]
  cases tighter? hole.level token with
  | some continuation => exact extend_respell spell hole expression continuation
  | none =>
    cases hole with
    | letValue site done name =>
      have next := @next_respell limit spell site (done ++ [.letStmt name expression]) token
      rw [respellAll_concat] at next
      exact next
    | returnValue site done =>
      have next := @next_respell limit spell site (done ++ [.returnStmt expression]) token
      rw [respellAll_concat] at next
      exact next
    | statement site done =>
      have next := @next_respell limit spell site (done ++ [.exprStmt expression]) token
      rw [respellAll_concat] at next
      exact next
    | operand outer op => exact resume_respell token outer (.unary op expression)
    | right outer left op => exact resume_respell token outer (.binary left op expression)
    | group outer => exact expect_respell spell .rparen token (.ok (.operator outer expression))
    | condition outer =>
      exact expect_respell spell .rparen token (.ok (.thenOpen outer expression))
    | element outer done =>
      have next := @enter_respell limit spell (.element outer (done ++ [expression]))
      have last := expect_respell spell .rbracket token
        (.ok (.operator outer (.array (done ++ [expression]))))
      simp only [Hole.respell, respell_eq_mark, respellAll_concat] at next ⊢
      split
      · exact next
      · simpa only [Node.respell, State.respell, Except.map, respellAll_concat] using last
    | argument outer callee done =>
      have next := @enter_respell limit spell (.argument outer callee (done ++ [expression]))
      have last := expect_respell spell .rparen token
        (.ok (.operator outer (.call callee (done ++ [expression]))))
      simp only [Hole.respell, respell_eq_mark, respellAll_concat] at next ⊢
      split
      · exact next
      · simpa only [Node.respell, State.respell, Except.map, respellAll_concat] using last
    | key outer done =>
      have next := @enter_respell limit spell (.value outer done expression)
      simp only [Hole.respell] at next ⊢
      rw [next]
      exact expect_respell spell .colon token _
    | value outer done label =>
      have last := expect_respell spell .comma token
        (.ok (.hashEntry outer (done ++ [(label, expression)])))
      simp only [Hole.respell, respell_eq_mark]
      split
      · simp [Except.map, State.respell, Node.respell]
      · simpa only [State.respell, Except.map, respellPairs_concat] using last
    | position outer left =>
      exact expect_respell spell .rbracket token (.ok (.operator outer (.index left expression)))
termination_by hole => hole.depth
decreasing_by all_goals subst_vars; simp [Hole.depth]

theorem param_respell (hole : Hole) (params : List String) (token : Token) :
    (hole.respell spell).param params (token.respell spell) =
      (hole.param params token).respell spell := by
  cases token <;> rfl

/-- The step lemma: a token and its respelling move both states on alike. -/
theorem feed_respell (state : State) (token : Token) :
    (state.respell spell).feed limit (token.respell spell) =
      (state.feed limit token).respell spell := by
  cases state with
  | statement site done => exact start_respell spell site done token
  | letName site done => cases token <;> rfl
  | letAssign site done name =>
    have next := @enter_respell limit spell (.letValue site done name)
    simp only [State.respell, State.feed, Hole.respell] at next ⊢
    rw [next]
    exact expect_respell spell .assign token _
  | operand hole => exact begin_respell spell hole token
  | operator hole expression => exact resume_respell spell token hole expression
  | ifOpen hole =>
    have next := @enter_respell limit spell (.condition hole)
    simp only [State.respell, State.feed, Hole.respell] at next ⊢
    rw [next]
    exact expect_respell spell .lparen token _
  | thenOpen hole condition =>
    exact expect_respell spell .lbrace token (.ok (.statement (.thenBranch hole condition) []))
  | thenDone hole condition consequence =>
    simp only [State.respell, State.feed, respell_eq_keyword]
    split
    · rfl
    · exact resume_respell spell token hole (.ifThen condition consequence)
  | elseOpen hole condition consequence =>
    exact expect_respell spell .lbrace token
      (.ok (.statement (.elseBranch hole condition consequence) []))
  | fnOpen hole => exact expect_respell spell .lparen token (.ok (.firstParam hole))
  | firstParam hole =>
    simp only [State.respell, State.feed, respell_eq_mark]
    split
    · rfl
    · exact param_respell spell hole [] token
  | nextParam hole params => exact param_respell spell hole params token
  | paramDone hole params =>
    simp only [State.respell, State.feed, respell_eq_mark]
    split
    · rfl
    · exact expect_respell spell .rparen token (.ok (.bodyOpen hole params))
  | bodyOpen hole params =>
    exact expect_respell spell .lbrace token (.ok (.statement (.body hole params) []))
  | firstElement hole =>
    simp only [State.respell, State.feed, respell_eq_mark]
    split
    · rfl
    · exact enterWith_respell spell (.element hole []) token
  | firstArgument hole callee =>
    simp only [State.respell, State.feed, respell_eq_mark]
    split
    · rfl
    · exact enterWith_respell spell (.argument hole callee []) token
  | hashEntry hole done =>
    simp only [State.respell, State.feed, respell_eq_mark]
    split
    · rfl
    · exact enterWith_respell spell (.key hole done) token
  | finished statements => rfl

/-- The run lemma: so do any number of tokens. -/
theorem feedAll_respell (state : State) (tokens : List Token) :
    (state.respell spell).feedAll limit (tokens.map (Token.respell spell)) =
      (state.feedAll limit tokens).respell spell := by
  induction tokens generalizing state with
  | nil => rfl
  | cons token tokens ih =>
    simp only [State.feedAll, List.map_cons, List.foldlM_cons, feed_respell]
    cases state.feed limit token with
    | error rejection => rfl
    | ok next => exact ih next

/-- Respelled tokens are read as the respelled tree, or rejected for the same reason. -/
theorem ofTokens_respell (tokens : List Token) :
    Node.ofTokens limit (tokens.map (Token.respell spell)) =
      (Node.ofTokens limit tokens).map (Node.respell spell) := by
  have fed : State.start.feedAll limit (tokens.map (Token.respell spell)) =
      (State.start.feedAll limit tokens).respell spell :=
    feedAll_respell spell State.start tokens
  unfold Node.ofTokens
  rw [fed]
  cases State.start.feedAll limit tokens with
  | error rejection => rfl
  | ok state => cases state <;> rfl

end Parse

end Capuchin
