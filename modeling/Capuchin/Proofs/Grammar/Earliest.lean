import Capuchin.Proofs.Grammar.Feeding
import Capuchin.Proofs.Limit.Reading

namespace Capuchin

/-- The kind of token that a rejection reports; being cut off reports none. -/
def Rejection.kind? : Rejection → Option Kind
  | unexpected _ actual => some actual
  | noOperand kind => some kind
  | overflow => none

namespace Parse

/-- What a step makes of a token: a rejection reports this token, and the end mark is rejected
or ends the program. -/
def Reports (token : Token) : Step → Prop
  | .ok next => token = .eof → ∃ statements, next = .finished statements
  | .error reason => reason ≠ .overflow → reason.kind? = some token.kind

section Reporting

variable {limit : Nat} {hole : Hole} {site : Site} {token : Token}

theorem reports_ok {next : State} (apart : token ≠ .eof) : Reports token (.ok next) :=
  fun same => absurd same apart

theorem enter_reports (apart : token ≠ .eof) : Reports token (hole.enter limit) := by
  unfold Hole.enter
  split
  · exact reports_ok apart
  · exact fun inside => absurd rfl inside

theorem expect_reports {wanted : Mark} {step : Step}
    (reports : token = .mark wanted → Reports token step) :
    Reports token (expect wanted token step) := by
  unfold expect
  split
  · rename_i same
    exact reports same
  · exact fun _ => rfl

theorem begin_reports (hole : Hole) (token : Token) : Reports token (hole.begin limit token) := by
  unfold Hole.begin
  split <;> first
    | exact enter_reports nofun
    | exact reports_ok nofun
    | exact fun _ => rfl

theorem enterWith_reports (hole : Hole) (token : Token) :
    Reports token (hole.enterWith limit token) := by
  unfold Hole.enterWith
  split
  · exact begin_reports hole token
  · exact fun inside => absurd rfl inside

theorem start_reports (site : Site) (done : List Node) (token : Token) :
    Reports token (site.start limit done token) := by
  unfold Site.start
  split
  · cases site with
    | program => exact fun _ => ⟨done, rfl⟩
    | _ => exact fun _ => rfl
  · exact reports_ok nofun
  · exact enter_reports nofun
  · split
    · exact reports_ok nofun
    · exact enterWith_reports _ _
  · exact enterWith_reports _ token

theorem next_reports (site : Site) (done : List Node) (token : Token) :
    Reports token (site.next limit done token) := by
  unfold Site.next
  split
  · rename_i same
    exact reports_ok (by simp [same])
  · exact start_reports site done token

theorem extend_reports (apart : token ≠ .eof) (expression : Node) (next : Continuation) :
    Reports token (hole.extend limit expression next) := by
  cases next with
  | call => exact reports_ok apart
  | _ => exact enter_reports apart

theorem resume_reports (token : Token) (hole : Hole) (expression : Node) :
    Reports token (hole.resume limit token expression) := by
  rw [Hole.resume.eq_def]
  have marked {mark : Mark} (same : token = .mark mark) : token ≠ .eof := by simp [same]
  split
  · rename_i joined
    refine extend_reports ?_ expression _
    rintro rfl
    cases joined
  · split
    · exact next_reports _ _ token
    · exact next_reports _ _ token
    · exact next_reports _ _ token
    · exact resume_reports token _ _
    · exact resume_reports token _ _
    · exact expect_reports fun same => reports_ok (marked same)
    · exact expect_reports fun same => reports_ok (marked same)
    · split
      · exact enter_reports (marked ‹_›)
      · exact expect_reports fun same => reports_ok (marked same)
    · split
      · exact enter_reports (marked ‹_›)
      · exact expect_reports fun same => reports_ok (marked same)
    · exact expect_reports fun same => enter_reports (marked same)
    · split
      · exact reports_ok (marked ‹_›)
      · exact expect_reports fun same => reports_ok (marked same)
    · exact expect_reports fun same => reports_ok (marked same)
termination_by hole.depth
decreasing_by all_goals subst_vars; simp [Hole.depth]

theorem param_reports (hole : Hole) (params : List String) (token : Token) :
    Reports token (hole.param params token) := by
  unfold Hole.param
  split
  · exact reports_ok nofun
  · exact fun _ => rfl

theorem feed_reports (limit : Nat) (state : State) (token : Token) :
    Reports token (state.feed limit token) := by
  have marked {mark : Mark} (same : token = .mark mark) : token ≠ .eof := by simp [same]
  cases state with
  | statement site done => exact start_reports site done token
  | letName site done =>
    simp only [State.feed]
    split
    · exact reports_ok (by simp)
    · exact fun _ => rfl
  | letAssign site done name => exact expect_reports fun same => enter_reports (marked same)
  | operand hole => exact begin_reports hole token
  | operator hole expression => exact resume_reports token hole expression
  | ifOpen hole => exact expect_reports fun same => enter_reports (marked same)
  | thenOpen hole condition => exact expect_reports fun same => reports_ok (marked same)
  | thenDone hole condition consequence =>
    simp only [State.feed]
    split
    · rename_i same
      exact reports_ok (by simp [same])
    · exact resume_reports token hole _
  | elseOpen hole condition consequence => exact expect_reports fun same => reports_ok (marked same)
  | fnOpen hole => exact expect_reports fun same => reports_ok (marked same)
  | firstParam hole =>
    simp only [State.feed]
    split
    · exact reports_ok (marked ‹_›)
    · exact param_reports hole [] token
  | nextParam hole params => exact param_reports hole params token
  | paramDone hole params =>
    simp only [State.feed]
    split
    · exact reports_ok (marked ‹_›)
    · exact expect_reports fun same => reports_ok (marked same)
  | bodyOpen hole params => exact expect_reports fun same => reports_ok (marked same)
  | firstElement hole =>
    simp only [State.feed]
    split
    · exact reports_ok (marked ‹_›)
    · exact enterWith_reports _ token
  | firstArgument hole callee =>
    simp only [State.feed]
    split
    · exact reports_ok (marked ‹_›)
    · exact enterWith_reports _ token
  | hashEntry hole done =>
    simp only [State.feed]
    split
    · exact reports_ok (marked ‹_›)
    · exact enterWith_reports _ token
  | finished statements => exact fun _ => ⟨statements, rfl⟩

end Reporting

mutual

/-- Tokens that close a list of statements and all that stands open around it. -/
def Site.closing : Site → List Token
  | .program => []
  | .thenBranch hole _ => .mark .rbrace :: hole.closing
  | .elseBranch hole _ _ => .mark .rbrace :: hole.closing
  | .body hole _ => .mark .rbrace :: hole.closing

/-- Tokens that close what stands open around an expression. -/
def Hole.closing : Hole → List Token
  | .letValue site _ _ => site.closing
  | .returnValue site _ => site.closing
  | .statement site _ => site.closing
  | .operand hole _ => hole.closing
  | .right hole _ _ => hole.closing
  | .group hole => .mark .rparen :: hole.closing
  | .condition hole => .mark .rparen :: .mark .lbrace :: .mark .rbrace :: hole.closing
  | .element hole _ => .mark .rbracket :: hole.closing
  | .argument hole _ _ => .mark .rparen :: hole.closing
  | .key hole _ => .mark .colon :: .keyword .trueWord :: .mark .rbrace :: hole.closing
  | .value hole _ _ => .mark .rbrace :: hole.closing
  | .position hole _ => .mark .rbracket :: hole.closing

end

/-- Tokens that complete a program from a state on. -/
def State.closing : State → List Token
  | .statement site _ => site.closing
  | .letName site _ => .ident "x" :: .mark .assign :: .keyword .trueWord :: site.closing
  | .letAssign site _ _ => .mark .assign :: .keyword .trueWord :: site.closing
  | .operand hole => .keyword .trueWord :: hole.closing
  | .operator hole _ => hole.closing
  | .ifOpen hole => .mark .lparen :: .keyword .trueWord :: (Hole.condition hole).closing
  | .thenOpen hole _ => .mark .lbrace :: .mark .rbrace :: hole.closing
  | .thenDone hole _ _ => hole.closing
  | .elseOpen hole _ _ => .mark .lbrace :: .mark .rbrace :: hole.closing
  | .fnOpen hole =>
    .mark .lparen :: .mark .rparen :: .mark .lbrace :: .mark .rbrace :: hole.closing
  | .firstParam hole => .mark .rparen :: .mark .lbrace :: .mark .rbrace :: hole.closing
  | .nextParam hole _ =>
    .ident "x" :: .mark .rparen :: .mark .lbrace :: .mark .rbrace :: hole.closing
  | .paramDone hole _ => .mark .rparen :: .mark .lbrace :: .mark .rbrace :: hole.closing
  | .bodyOpen hole _ => .mark .lbrace :: .mark .rbrace :: hole.closing
  | .firstElement hole => .mark .rbracket :: hole.closing
  | .firstArgument hole _ => .mark .rparen :: hole.closing
  | .hashEntry hole _ => .mark .rbrace :: hole.closing
  | .finished _ => []

mutual

theorem Site.eof_notMem_closing : (site : Site) → .eof ∉ site.closing
  | .program => by simp [Site.closing]
  | .thenBranch hole _ | .elseBranch hole _ _ | .body hole _ => by
    simp [Site.closing, hole.eof_notMem_closing]

theorem Hole.eof_notMem_closing : (hole : Hole) → .eof ∉ hole.closing
  | .letValue site _ _ | .returnValue site _ | .statement site _ => by
    simp [Hole.closing, site.eof_notMem_closing]
  | .operand hole _ | .right hole _ _ | .group hole | .condition hole | .element hole _
  | .argument hole _ _ | .key hole _ | .value hole _ _ | .position hole _ => by
    simp [Hole.closing, hole.eof_notMem_closing]

end

theorem State.eof_notMem_closing (state : State) : .eof ∉ state.closing := by
  cases state <;>
    simp [closing, Hole.closing, Site.eof_notMem_closing, Hole.eof_notMem_closing]

/-- Tokens that end an expression wherever it stands. -/
def closers : List Token :=
  [.eof, .mark .rparen, .mark .rbrace, .mark .rbracket, .mark .colon]

section Closing

variable {limit : Nat} {token : Token} {tokens : List Token} {state next : State}

theorem tighter?_closer (closer : token ∈ closers) (level : Nat) : tighter? level token = none := by
  simp only [closers, List.mem_cons, List.not_mem_nil, or_false] at closer
  rcases closer with rfl | rfl | rfl | rfl | rfl <;> rfl

theorem Site.closing_head (site : Site) : site.closing.headD .eof ∈ closers := by
  cases site <;> simp [closing, closers]

theorem Hole.closing_head : (hole : Hole) → hole.closing.headD .eof ∈ closers
  | .letValue site _ _ | .returnValue site _ | .statement site _ => by
    rw [closing]
    exact site.closing_head
  | .operand hole _ | .right hole _ _ => by
    rw [closing]
    exact hole.closing_head
  | .group _ | .condition _ | .element _ _ | .argument _ _ _ | .key _ _ | .value _ _ _
  | .position _ _ => by simp [closing, closers]

/-- The tokens and the end mark after them lead from the state to the end of a program. -/
def Finishes (limit : Nat) (state : State) (tokens : List Token) : Prop :=
  ∃ statements, state.feedAll limit (tokens ++ [.eof]) = .ok (.finished statements)

theorem Finishes.cons (rest : Finishes limit next tokens) (fed : state.feed limit token = .ok next) :
    Finishes limit state (token :: tokens) := by
  obtain ⟨statements, finished⟩ := rest
  refine ⟨statements, ?_⟩
  rw [List.cons_append, Grammar.feedAll_cons fed]
  exact finished

/-- States that take closers alike are finished by the same closing tokens. -/
theorem Finishes.alike {other : State} (finishes : Finishes limit other tokens)
    (head : tokens.headD .eof ∈ closers)
    (same : ∀ token ∈ closers, state.feed limit token = other.feed limit token) :
    Finishes limit state tokens := by
  obtain ⟨statements, finished⟩ := finishes
  refine ⟨statements, ?_⟩
  cases tokens <;>
    · simp only [List.headD_nil, List.headD_cons] at head
      simp only [List.nil_append, List.cons_append, State.feedAll, List.foldlM_cons, same _ head]
        at finished ⊢
      exact finished

/-- A closer ends a statement as a semicolon would, without being part of it. -/
theorem Finishes.stated {hole : Hole} {site : Site} {done : List Node} {expression : Node}
    (finishes : Finishes limit (.statement site done) site.closing)
    (met : ∀ token, tighter? hole.level token = none →
      hole.resume limit token expression = site.next limit done token) :
    Finishes limit (.operator hole expression) site.closing := by
  refine finishes.alike site.closing_head fun token closer => ?_
  have apart : token ≠ .mark .semicolon := by
    rintro rfl
    simp [closers] at closer
  simp only [State.feed, met token (tighter?_closer closer _), Site.next, if_neg apart]

theorem Finishes.passed {hole outer : Hole} {expression node : Node}
    (finishes : Finishes limit (.operator outer node) outer.closing)
    (met : ∀ token, tighter? hole.level token = none →
      hole.resume limit token expression = outer.resume limit token node) :
    Finishes limit (.operator hole expression) outer.closing := by
  refine finishes.alike outer.closing_head fun token closer => ?_
  simp only [State.feed, met token (tighter?_closer closer _)]

/-- An expression may be opened by the token and be a literal. -/
theorem Finishes.enter {hole : Hole} (filled : Finishes limit (.operator hole (.bool true)) tokens)
    (fed : state.feed limit token = hole.enter limit) (room : hole.depth ≤ limit) :
    Finishes limit state (token :: .keyword .trueWord :: tokens) := by
  have begun : Finishes limit (.operand hole) (.keyword .trueWord :: tokens) := filled.cons rfl
  exact begun.cons (fed.trans (Grammar.enter_eq_ok room))

/-- After a consequence a closer is met as after the whole `if`. -/
theorem Finishes.thenDone {hole : Hole} {condition consequence : Node}
    (finishes : Finishes limit (.operator hole (.ifThen condition consequence)) hole.closing) :
    Finishes limit (.thenDone hole condition consequence) hole.closing := by
  refine finishes.alike hole.closing_head fun token closer => ?_
  have apart : token ≠ .keyword .elseWord := by
    rintro rfl
    simp [closers] at closer
  simp only [State.feed, if_neg apart]

end Closing

section Finishing

variable {limit : Nat}

mutual

/-- A list of statements can end wherever it stands. -/
theorem Site.finishes (site : Site) (done : List Node) (room : site.depth ≤ limit) :
    Finishes limit (.statement site done) site.closing := by
  cases site with
  | program => exact ⟨done, rfl⟩
  | thenBranch hole condition =>
    have after := hole.finishes (.ifThen condition (.block done)) room
    exact after.thenDone.cons rfl
  | elseBranch hole condition consequence =>
    exact (hole.finishes (.ifElse condition consequence (.block done)) room).cons rfl
  | body hole params => exact (hole.finishes (.fn params (.block done)) room).cons rfl

/-- An expression can be the last one in its hole. -/
theorem Hole.finishes (hole : Hole) (expression : Node) (room : hole.depth ≤ limit) :
    Finishes limit (.operator hole expression) hole.closing := by
  cases hole with
  | letValue site done name =>
    refine (site.finishes (done ++ [.letStmt name expression]) (Nat.le_of_succ_le room)).stated ?_
    intro token free
    simp only [Hole.resume, free]
  | returnValue site done =>
    refine (site.finishes (done ++ [.returnStmt expression]) (Nat.le_of_succ_le room)).stated ?_
    intro token free
    simp only [Hole.resume, free]
  | statement site done =>
    refine (site.finishes (done ++ [.exprStmt expression]) (Nat.le_of_succ_le room)).stated ?_
    intro token free
    simp only [Hole.resume, free]
  | operand outer op =>
    refine (outer.finishes (.unary op expression) (Nat.le_of_succ_le room)).passed ?_
    intro token free
    rw [Hole.resume, free]
  | right outer left op =>
    refine (outer.finishes (.binary left op expression) (Nat.le_of_succ_le room)).passed ?_
    intro token free
    rw [Hole.resume, free]
  | group outer => exact (outer.finishes expression (Nat.le_of_succ_le room)).cons rfl
  | condition outer =>
    have after := outer.finishes (.ifThen expression (.block [])) (Nat.le_of_succ_le room)
    have opened : Finishes limit (.statement (.thenBranch outer expression) [])
        (.mark .rbrace :: outer.closing) := after.thenDone.cons rfl
    have met : Finishes limit (.thenOpen outer expression)
        (.mark .lbrace :: .mark .rbrace :: outer.closing) := opened.cons rfl
    exact met.cons rfl
  | element outer done =>
    exact (outer.finishes (.array (done ++ [expression])) (Nat.le_of_succ_le room)).cons rfl
  | argument outer callee done =>
    exact (outer.finishes (.call callee (done ++ [expression])) (Nat.le_of_succ_le room)).cons rfl
  | key outer done =>
    have whole := outer.finishes (.hash (done ++ [(expression, .bool true)])) (Nat.le_of_succ_le room)
    have valued : Finishes limit (.operator (.value outer done expression) (.bool true))
        (.mark .rbrace :: outer.closing) := whole.cons rfl
    exact valued.enter rfl room
  | value outer done label =>
    exact (outer.finishes (.hash (done ++ [(label, expression)])) (Nat.le_of_succ_le room)).cons rfl
  | position outer left =>
    exact (outer.finishes (.index left expression) (Nat.le_of_succ_le room)).cons rfl

end

theorem Hole.body_finishes (hole : Hole) (params : List String) (room : hole.depth ≤ limit) :
    Finishes limit (.bodyOpen hole params) (.mark .lbrace :: .mark .rbrace :: hole.closing) :=
  ((Site.body hole params).finishes [] room).cons rfl

/-- From every state a program can be completed. -/
theorem State.finishes (state : State) (room : state.depth < limit) :
    Finishes limit state state.closing := by
  have above {depth : Nat} (below : depth + 1 < limit) : depth ≤ limit := by omega
  cases state with
  | statement site done => exact site.finishes done (above room)
  | letName site done =>
    have filled := (Hole.letValue site done "x").finishes (.bool true) (Nat.le_of_lt room)
    have named : Finishes limit (.letAssign site done "x")
        (.mark .assign :: .keyword .trueWord :: site.closing) := filled.enter rfl (Nat.le_of_lt room)
    exact named.cons rfl
  | letAssign site done name =>
    have filled := (Hole.letValue site done name).finishes (.bool true) (Nat.le_of_lt room)
    exact filled.enter rfl (Nat.le_of_lt room)
  | operand hole => exact (hole.finishes (.bool true) (Nat.le_of_lt room)).cons rfl
  | operator hole expression => exact hole.finishes expression (Nat.le_of_lt room)
  | ifOpen hole => exact ((Hole.condition hole).finishes (.bool true) room).enter rfl room
  | thenOpen hole condition =>
    exact ((Site.thenBranch hole condition).finishes [] (Nat.le_of_lt room)).cons rfl
  | thenDone hole condition consequence =>
    exact (hole.finishes (.ifThen condition consequence) (Nat.le_of_lt room)).thenDone
  | elseOpen hole condition consequence =>
    exact ((Site.elseBranch hole condition consequence).finishes [] (Nat.le_of_lt room)).cons rfl
  | fnOpen hole =>
    have opened : Finishes limit (.firstParam hole) (.mark .rparen :: _) :=
      (hole.body_finishes [] (Nat.le_of_lt room)).cons rfl
    exact opened.cons rfl
  | firstParam hole => exact (hole.body_finishes [] (Nat.le_of_lt room)).cons rfl
  | nextParam hole params =>
    have named : Finishes limit (.paramDone hole (params ++ ["x"])) (.mark .rparen :: _) :=
      (hole.body_finishes (params ++ ["x"]) (Nat.le_of_lt room)).cons rfl
    exact named.cons rfl
  | paramDone hole params => exact (hole.body_finishes params (Nat.le_of_lt room)).cons rfl
  | bodyOpen hole params => exact hole.body_finishes params (Nat.le_of_lt room)
  | firstElement hole => exact (hole.finishes (.array []) (above room)).cons rfl
  | firstArgument hole callee => exact (hole.finishes (.call callee []) (above room)).cons rfl
  | hashEntry hole done => exact (hole.finishes (.hash done) (above room)).cons rfl
  | finished statements => exact ⟨statements, rfl⟩

end Finishing

/-- A rejection is made at one token, in the state that the tokens before it lead to. -/
theorem feedAll_error {state : State} (failed : state.feedAll limit tokens = .error reason) :
    ∃ before token after middle, tokens = before ++ token :: after ∧
      state.feedAll limit before = .ok middle ∧ middle.feed limit token = .error reason := by
  induction tokens generalizing state with
  | nil => cases failed
  | cons token tokens ih =>
    cases fed : state.feed limit token with
    | error other =>
      simp only [State.feedAll, List.foldlM_cons, fed] at failed
      cases failed
      exact ⟨[], token, tokens, state, rfl, rfl, fed⟩
    | ok next =>
      rw [Grammar.feedAll_cons fed] at failed
      obtain ⟨before, found, after, middle, rfl, reached, rejected⟩ := ih failed
      refine ⟨token :: before, found, after, middle, rfl, ?_, rejected⟩
      rw [Grammar.feedAll_cons fed]
      exact reached

/-- Tokens that are taken up to the end mark are a program, so these tokens are rejected by a
step. -/
theorem feedAll_of_ofTokens_error {tokens : List Token}
    (failed : Node.ofTokens limit (tokens ++ [.eof]) = .error reason) :
    State.start.feedAll limit (tokens ++ [.eof]) = .error reason := by
  unfold Node.ofTokens at failed
  cases fed : State.start.feedAll limit (tokens ++ [.eof]) with
  | error other =>
    rw [fed] at failed
    cases failed
    rfl
  | ok last =>
    cases read : State.start.feedAll limit tokens with
    | error other =>
      simp only [State.feedAll, List.foldlM_append] at read fed
      rw [read] at fed
      cases fed
    | ok middle =>
      have reports := feed_reports limit middle .eof
      rw [← Grammar.feedAll_concat read, fed] at reports
      obtain ⟨statements, rfl⟩ := reports rfl
      rw [fed] at failed
      cases failed

section Placing

variable {limit more : Nat} {before : List Token} {middle : State} {token : Token}

/-- A rejection stands whatever follows the token and however far the limit is raised. -/
theorem ofTokens_of_feed_error (reached : State.start.feedAll limit before = .ok middle)
    (rejected : middle.feed limit token = .error reason) (rest : List Token) :
    Node.ofTokens limit (before ++ token :: rest) = .error reason := by
  unfold Node.ofTokens
  rw [Grammar.feedAll_append reached]
  simp only [State.feedAll, List.foldlM_cons, rejected]
  rfl

theorem ofTokens_of_finishes (reached : State.start.feedAll limit before = .ok middle)
    (finishes : Finishes limit middle tokens) :
    ∃ tree, Node.ofTokens limit (before ++ tokens ++ [.eof]) = .ok tree := by
  obtain ⟨statements, finished⟩ := finishes
  refine ⟨.program statements, ?_⟩
  unfold Node.ofTokens
  rw [List.append_assoc, Grammar.feedAll_append reached, finished]
  rfl

/-- A program that is read under one limit is read under every limit above its length. -/
theorem ofTokens_of_room {tokens : List Token} (read : Node.ofTokens limit tokens = .ok tree)
    (room : tokens.length < more) : Node.ofTokens more tokens = .ok tree := by
  rcases Nat.le_total limit more with order | order
  · exact (ofTokens_cut order tokens).eq_ok read
  · rw [(ofTokens_cut order tokens).eq (ofTokens_ne_overflow tokens room)]
    exact read

theorem ofTokens_completion (only : .eof ∉ before)
    (reached : State.start.feedAll limit before = .ok middle) :
    ∃ rest tree, .eof ∉ before ++ rest ∧ ∀ more, (before ++ rest ++ [Token.eof]).length < more →
      Node.ofTokens more (before ++ rest ++ [.eof]) = .ok tree := by
  have wide : State.start.feedAll (limit + middle.depth + 1) before = .ok middle :=
    (feedAll_cut (by omega) State.start before).eq_ok reached
  obtain ⟨tree, read⟩ := ofTokens_of_finishes wide (middle.finishes (by omega))
  refine ⟨middle.closing, tree, ?_, fun more room => ofTokens_of_room read room⟩
  exact fun found => (List.mem_append.mp found).elim only middle.eof_notMem_closing

end Placing

end Parse

open Parse

/-- If tokens up to their only end mark are rejected, then one token is reported: all tokens that
begin like these up to that token are rejected for the same reason, and some that begin like
these up to before it are a program, both up to being cut off. -/
theorem ofTokens_rejects_earliest (limit : Nat) (tokens : List Token) (reason : Rejection)
    (only : .eof ∉ tokens) (rejected : Node.ofTokens limit (tokens ++ [.eof]) = .error reason)
    (whole : reason ≠ .overflow) :
    ∃ place token, (tokens ++ [Token.eof])[place]? = some token ∧ reason.kind? = some token.kind ∧
      (∀ other, other.take (place + 1) = (tokens ++ [Token.eof]).take (place + 1) →
        (∀ more, limit ≤ more → Node.ofTokens more other = .error reason) ∧
        ∀ less, Cut .overflow (Node.ofTokens less other) (.error reason)) ∧
      ∃ other tree, .eof ∉ other ∧
        (other ++ [Token.eof]).take place = (tokens ++ [Token.eof]).take place ∧
        ∀ more, (other ++ [Token.eof]).length < more →
          Node.ofTokens more (other ++ [.eof]) = .ok tree := by
  obtain ⟨before, token, after, middle, split, reached, refused⟩ :=
    feedAll_error (feedAll_of_ofTokens_error rejected)
  have clean : .eof ∉ before := by
    have begins : before <+: tokens ++ [.eof] := ⟨token :: after, split.symm⟩
    rcases List.prefix_concat_iff.mp begins with same | short
    · simp [same] at split
    · exact fun found => only (short.subset found)
  have reports := feed_reports limit middle token
  rw [refused] at reports
  refine ⟨before.length, token, by simp [split], reports whole, ?_, ?_⟩
  · intro other same
    have agrees : before ++ token :: other.drop (before.length + 1) = other := by
      have cut := List.take_append_drop (before.length + 1) other
      rw [same, split, List.take_length_add_append] at cut
      simpa using cut
    have here : Node.ofTokens limit other = .error reason := by
      rw [← agrees]
      exact ofTokens_of_feed_error reached refused _
    have above (more : Nat) (order : limit ≤ more) : Node.ofTokens more other = .error reason := by
      rw [← (ofTokens_cut order other).eq (by simp [here, whole])]
      exact here
    refine ⟨above, fun less => ?_⟩
    rcases Nat.le_total limit less with order | order
    · exact .inr (above less order)
    · rw [← here]
      exact ofTokens_cut order other
  · obtain ⟨rest, tree, cleanly, read⟩ := ofTokens_completion clean reached
    exact ⟨before ++ rest, tree, cleanly, by simp [split], read⟩

/-- `f(1 let` is rejected at `let`, whatever follows, and `f(1` can be completed. -/
theorem ofTokens_rejects_earliest_argument :
    Token.eof ∉ [.ident "f", .mark .lparen, .int "1", .keyword .letWord] ∧
    Node.ofTokens 9 ([.ident "f", .mark .lparen, .int "1", .keyword .letWord] ++ [.eof]) =
      .error (.unexpected (.mark .rparen) (.keyword .letWord)) ∧
    (∀ rest, Node.ofTokens 9
        (.ident "f" :: .mark .lparen :: .int "1" :: .keyword .letWord :: rest) =
      .error (.unexpected (.mark .rparen) (.keyword .letWord))) ∧
    ∃ other tree limit,
      (other ++ [Token.eof]).take 3 = [.ident "f", .mark .lparen, .int "1"] ∧
      Node.ofTokens limit (other ++ [.eof]) = .ok tree := by
  have rejected : Node.ofTokens 9
      ([.ident "f", .mark .lparen, .int "1", .keyword .letWord] ++ [.eof]) =
      .error (.unexpected (.mark .rparen) (.keyword .letWord)) := rfl
  obtain ⟨place, token, found, kind, stays, other, tree, _, same, read⟩ :=
    ofTokens_rejects_earliest 9 _ _ (by decide) rejected nofun
  obtain rfl : place = 3 := by
    rcases place with _ | _ | _ | _ | _ | place <;> cases found <;> first | rfl | cases kind
  exact ⟨by decide, rejected, fun rest => (stays _ rfl).1 9 (Nat.le_refl 9), other, tree, _, same,
    read _ (Nat.lt_succ_self _)⟩

end Capuchin
