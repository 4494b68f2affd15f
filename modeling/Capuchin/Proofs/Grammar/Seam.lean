import Capuchin.Proofs.Grammar.Sound

namespace Capuchin.Parse

/-- Statements that stand before the program's own, where the list is that of the program. -/
def Site.lead (front : List Node) : Site → List Node
  | .program => front
  | _ => []

mutual

/-- The same place in a program that has more statements in front. -/
def Site.after (front : List Node) : Site → Site
  | .program => .program
  | .thenBranch hole condition => .thenBranch (hole.after front) condition
  | .elseBranch hole condition consequence => .elseBranch (hole.after front) condition consequence
  | .body hole params => .body (hole.after front) params

def Hole.after (front : List Node) : Hole → Hole
  | .letValue site done name => .letValue (site.after front) (site.lead front ++ done) name
  | .returnValue site done => .returnValue (site.after front) (site.lead front ++ done)
  | .statement site done => .statement (site.after front) (site.lead front ++ done)
  | .operand hole op => .operand (hole.after front) op
  | .right hole left op => .right (hole.after front) left op
  | .group hole => .group (hole.after front)
  | .condition hole => .condition (hole.after front)
  | .element hole done => .element (hole.after front) done
  | .argument hole callee done => .argument (hole.after front) callee done
  | .key hole done => .key (hole.after front) done
  | .value hole done label => .value (hole.after front) done label
  | .position hole left => .position (hole.after front) left

end

/-- The state with more statements read before. -/
def State.after (front : List Node) : State → State
  | .statement site done => .statement (site.after front) (site.lead front ++ done)
  | .letName site done => .letName (site.after front) (site.lead front ++ done)
  | .letAssign site done name => .letAssign (site.after front) (site.lead front ++ done) name
  | .operand hole => .operand (hole.after front)
  | .operator hole expression => .operator (hole.after front) expression
  | .ifOpen hole => .ifOpen (hole.after front)
  | .thenOpen hole condition => .thenOpen (hole.after front) condition
  | .thenDone hole condition consequence => .thenDone (hole.after front) condition consequence
  | .elseOpen hole condition consequence => .elseOpen (hole.after front) condition consequence
  | .fnOpen hole => .fnOpen (hole.after front)
  | .firstParam hole => .firstParam (hole.after front)
  | .nextParam hole params => .nextParam (hole.after front) params
  | .paramDone hole params => .paramDone (hole.after front) params
  | .bodyOpen hole params => .bodyOpen (hole.after front) params
  | .firstElement hole => .firstElement (hole.after front)
  | .firstArgument hole callee => .firstArgument (hole.after front) callee
  | .hashEntry hole done => .hashEntry (hole.after front) done
  | .finished statements => .finished (front ++ statements)

/-- The step with more statements read before. -/
abbrev Step.after (front : List Node) (step : Step) : Step :=
  step.map (State.after front)

section After

variable {limit : Nat} (front : List Node)

mutual

theorem Site.depth_after : (site : Site) → (site.after front).depth = site.depth
  | .program => rfl
  | .thenBranch hole _ => hole.depth_after
  | .elseBranch hole _ _ => hole.depth_after
  | .body hole _ => hole.depth_after

theorem Hole.depth_after : (hole : Hole) → (hole.after front).depth = hole.depth
  | .letValue site _ _ => congrArg (· + 1) site.depth_after
  | .returnValue site _ => congrArg (· + 1) site.depth_after
  | .statement site _ => congrArg (· + 1) site.depth_after
  | .operand hole _ => congrArg (· + 1) hole.depth_after
  | .right hole _ _ => congrArg (· + 1) hole.depth_after
  | .group hole => congrArg (· + 1) hole.depth_after
  | .condition hole => congrArg (· + 1) hole.depth_after
  | .element hole _ => congrArg (· + 1) hole.depth_after
  | .argument hole _ _ => congrArg (· + 1) hole.depth_after
  | .key hole _ => congrArg (· + 1) hole.depth_after
  | .value hole _ _ => congrArg (· + 1) hole.depth_after
  | .position hole _ => congrArg (· + 1) hole.depth_after

end

theorem level_after (hole : Hole) : (hole.after front).level = hole.level := by
  cases hole <;> rfl

theorem expect_after (mark : Mark) (token : Token) (step : Step) :
    expect mark token (step.after front) = (expect mark token step).after front := by
  unfold expect
  split <;> rfl

theorem enter_after (hole : Hole) :
    (hole.after front).enter limit = (hole.enter limit).after front := by
  unfold Hole.enter
  rw [Hole.depth_after]
  split <;> rfl

theorem begin_after (hole : Hole) (token : Token) :
    (hole.after front).begin limit token = (hole.begin limit token).after front := by
  unfold Hole.begin
  split <;> first
    | rfl
    | exact enter_after front (.operand hole _)
    | exact enter_after front (.group hole)

theorem enterWith_after (hole : Hole) (token : Token) :
    (hole.after front).enterWith limit token = (hole.enterWith limit token).after front := by
  unfold Hole.enterWith
  rw [Hole.depth_after]
  split
  · exact begin_after front hole token
  · rfl

theorem close_after (site : Site) (done : List Node) :
    (site.after front).close? (site.lead front ++ done) =
      (site.close? done).map (State.after front) := by
  cases site <;> rfl

theorem finish_after (site : Site) (done : List Node) :
    (site.after front).finish (site.lead front ++ done) = (site.finish done).after front := by
  cases site <;> rfl

theorem start_after (site : Site) (done : List Node) (token : Token) :
    (site.after front).start limit (site.lead front ++ done) token =
      (site.start limit done token).after front := by
  unfold Site.start
  split
  · exact finish_after front site done
  · rfl
  · exact enter_after front (.returnValue site done)
  · rw [close_after]
    cases site.close? done with
    | some closed => rfl
    | none => exact enterWith_after front (.statement site done) _
  · exact enterWith_after front (.statement site done) _

theorem next_after (site : Site) (done : List Node) (token : Token) :
    (site.after front).next limit (site.lead front ++ done) token =
      (site.next limit done token).after front := by
  unfold Site.next
  split
  · rfl
  · exact start_after front site done token

theorem extend_after (hole : Hole) (expression : Node) (next : Continuation) :
    (hole.after front).extend limit expression next =
      (hole.extend limit expression next).after front := by
  cases next with
  | binary op => exact enter_after front (.right hole expression op)
  | call => rfl
  | index => exact enter_after front (.position hole expression)

theorem resume_after (token : Token) : (hole : Hole) → (expression : Node) →
    (hole.after front).resume limit token expression =
      (hole.resume limit token expression).after front := by
  intro hole expression
  rw [Hole.resume.eq_def, Hole.resume.eq_def limit token hole, level_after]
  cases tighter? hole.level token with
  | some continuation => exact extend_after front hole expression continuation
  | none =>
    cases hole with
    | letValue site done name =>
      simp only [Hole.after, List.append_assoc]
      exact next_after front site (done ++ [.letStmt name expression]) token
    | returnValue site done =>
      simp only [Hole.after, List.append_assoc]
      exact next_after front site (done ++ [.returnStmt expression]) token
    | statement site done =>
      simp only [Hole.after, List.append_assoc]
      exact next_after front site (done ++ [.exprStmt expression]) token
    | operand outer op => exact resume_after token outer (.unary op expression)
    | right outer left op => exact resume_after token outer (.binary left op expression)
    | group outer => exact expect_after front .rparen token (.ok (.operator outer expression))
    | condition outer => exact expect_after front .rparen token (.ok (.thenOpen outer expression))
    | element outer done =>
      simp only [Hole.after]
      split
      · exact enter_after front (.element outer (done ++ [expression]))
      · exact expect_after front .rbracket token (.ok (.operator outer _))
    | argument outer callee done =>
      simp only [Hole.after]
      split
      · exact enter_after front (.argument outer callee (done ++ [expression]))
      · exact expect_after front .rparen token (.ok (.operator outer _))
    | key outer done =>
      simp only [Hole.after]
      rw [← expect_after, ← enter_after]
      rfl
    | value outer done label =>
      simp only [Hole.after]
      split
      · rfl
      · exact expect_after front .comma token (.ok (.hashEntry outer _))
    | position outer left => exact expect_after front .rbracket token (.ok (.operator outer _))
termination_by hole => hole.depth
decreasing_by all_goals subst_vars; simp [Hole.depth]

theorem param_after (hole : Hole) (params : List String) (token : Token) :
    (hole.after front).param params token = (hole.param params token).after front := by
  unfold Hole.param
  split <;> rfl

/-- The step lemma: a token moves both states on alike. -/
theorem feed_after (state : State) (token : Token) :
    (state.after front).feed limit token = (state.feed limit token).after front := by
  cases state with
  | statement site done => exact start_after front site done token
  | letName site done =>
    simp only [State.after, State.feed]
    split <;> rfl
  | letAssign site done name =>
    simp only [State.after, State.feed]
    rw [← expect_after, ← enter_after]
    rfl
  | operand hole => exact begin_after front hole token
  | operator hole expression => exact resume_after front token hole expression
  | ifOpen hole =>
    simp only [State.after, State.feed]
    rw [← expect_after, ← enter_after]
    rfl
  | thenOpen hole condition =>
    exact expect_after front .lbrace token (.ok (.statement (.thenBranch hole condition) []))
  | thenDone hole condition consequence =>
    simp only [State.after, State.feed]
    split
    · rfl
    · exact resume_after front token hole (.ifThen condition consequence)
  | elseOpen hole condition consequence =>
    exact expect_after front .lbrace token
      (.ok (.statement (.elseBranch hole condition consequence) []))
  | fnOpen hole => exact expect_after front .lparen token (.ok (.firstParam hole))
  | firstParam hole =>
    simp only [State.after, State.feed]
    split
    · rfl
    · exact param_after front hole [] token
  | nextParam hole params => exact param_after front hole params token
  | paramDone hole params =>
    simp only [State.after, State.feed]
    split
    · rfl
    · exact expect_after front .rparen token (.ok (.bodyOpen hole params))
  | bodyOpen hole params =>
    exact expect_after front .lbrace token (.ok (.statement (.body hole params) []))
  | firstElement hole =>
    simp only [State.after, State.feed]
    split
    · rfl
    · exact enterWith_after front (.element hole []) token
  | firstArgument hole callee =>
    simp only [State.after, State.feed]
    split
    · rfl
    · exact enterWith_after front (.argument hole callee []) token
  | hashEntry hole done =>
    simp only [State.after, State.feed]
    split
    · rfl
    · exact enterWith_after front (.key hole done) token
  | finished statements => rfl

/-- The run lemma: so do any number of tokens. -/
theorem feedAll_after (state : State) (tokens : List Token) :
    (state.after front).feedAll limit tokens = (state.feedAll limit tokens).after front := by
  induction tokens generalizing state with
  | nil => rfl
  | cons token tokens ih =>
    simp only [State.feedAll, List.foldlM_cons, feed_after]
    cases state.feed limit token with
    | error rejection => rfl
    | ok next => exact ih next

end After

section Semicolon

variable {limit : Nat} {next : State}

/-- A semicolon is taken at the end of a statement only. -/
theorem resume_semicolon (hole : Hole) (expression : Node)
    (fed : hole.resume limit (.mark .semicolon) expression = .ok next) :
    ∃ site done, next = .statement site done := by
  have loose : tighter? hole.level (.mark .semicolon) = none := rfl
  rw [Hole.resume.eq_def, loose] at fed
  cases hole with
  | letValue site done name =>
    cases fed
    exact ⟨_, _, rfl⟩
  | returnValue site done =>
    cases fed
    exact ⟨_, _, rfl⟩
  | statement site done =>
    cases fed
    exact ⟨_, _, rfl⟩
  | operand outer op => exact resume_semicolon outer _ fed
  | right outer left op => exact resume_semicolon outer _ fed
  | _ => cases fed
termination_by hole.depth
decreasing_by all_goals subst_vars; simp [Hole.depth]

/-- No expression begins with a semicolon. -/
theorem enterWith_semicolon (hole : Hole) :
    hole.enterWith limit (.mark .semicolon) ≠ .ok next := by
  unfold Hole.enterWith
  split <;> exact nofun

theorem feed_semicolon (state : State) (fed : state.feed limit (.mark .semicolon) = .ok next) :
    (∃ site done, next = .statement site done) ∨ ∃ statements, next = .finished statements := by
  cases state with
  | operator hole expression => exact .inl (resume_semicolon hole expression fed)
  | thenDone hole condition consequence => exact .inl (resume_semicolon hole _ fed)
  | finished statements =>
    cases fed
    exact .inr ⟨statements, rfl⟩
  | statement site done => exact absurd fed (enterWith_semicolon (.statement site done))
  | firstElement hole => exact absurd fed (enterWith_semicolon (.element hole []))
  | firstArgument hole callee => exact absurd fed (enterWith_semicolon (.argument hole callee []))
  | hashEntry hole done => exact absurd fed (enterWith_semicolon (.key hole done))
  | _ => cases fed

end Semicolon

end Capuchin.Parse

namespace Capuchin.Grammar

open Parse

variable {limit : Nat} {tokens : List Token}

/-- Tokens of a program up to its last semicolon leave nothing open. -/
theorem feedAll_semicolon (only : Token.eof ∉ tokens)
    (read : Node.ofTokens limit (tokens ++ [Token.mark .semicolon, .eof]) = .ok tree) :
    ∃ statements, tree = .program statements ∧
      State.start.feedAll limit (tokens ++ [Token.mark .semicolon]) =
        .ok (State.start.after statements) := by
  obtain ⟨statements, rfl, fed⟩ := feedAll_of_ofTokens read
  refine ⟨statements, rfl, ?_⟩
  obtain ⟨state, reached, rest⟩ := feedAll_append_ok fed
  obtain ⟨next, taken, rest⟩ := feedAll_cons_ok rest
  obtain ⟨last, ended, rest⟩ := feedAll_cons_ok rest
  cases rest
  have through : State.start.feedAll limit (tokens ++ [Token.mark .semicolon]) = .ok next :=
    (feedAll_concat reached _).trans taken
  rcases feed_semicolon state taken with ⟨site, done, rfl⟩ | ⟨early, rfl⟩
  · cases site with
    | program =>
      cases ended
      rw [through, State.start, State.after, List.append_nil]
      rfl
    | _ => cases ended
  · -- The end of the program cannot have been met yet.
    have begun : Reached [] State.start := .statement .program .nil
    have finished := begun.feedAll through
    generalize same : [] ++ (tokens ++ [Token.mark .semicolon]) = all at finished
    cases finished with
    | finished spelled =>
      have member : Token.eof ∈ [] ++ (tokens ++ [Token.mark .semicolon]) := by simp [same]
      simp [only] at member

/-- Tokens after those of a program that ends with a semicolon are read as if they stood alone. -/
theorem ofTokens_seam (only : Token.eof ∉ tokens)
    (read : Node.ofTokens limit (tokens ++ [Token.mark .semicolon, .eof]) = .ok tree) :
    ∃ first, tree = .program first ∧ ∀ others,
      (∀ rejection, Node.ofTokens limit others = .error rejection →
        Node.ofTokens limit (tokens ++ [Token.mark .semicolon] ++ others) = .error rejection) ∧
      ∀ second, Node.ofTokens limit others = .ok (.program second) →
        Node.ofTokens limit (tokens ++ [Token.mark .semicolon] ++ others) =
          .ok (.program (first ++ second)) := by
  obtain ⟨first, rfl, fed⟩ := feedAll_semicolon only read
  refine ⟨first, rfl, fun others => ?_⟩
  unfold Node.ofTokens
  rw [feedAll_append fed, feedAll_after]
  cases State.start.feedAll limit others with
  | error reason =>
    refine ⟨?_, nofun⟩
    rintro _ ⟨⟩
    rfl
  | ok state =>
    cases state with
    | finished statements =>
      refine ⟨nofun, ?_⟩
      rintro _ ⟨⟩
      rfl
    | _ =>
      refine ⟨?_, nofun⟩
      rintro _ ⟨⟩
      rfl

end Capuchin.Grammar
