import Capuchin.Parse.Feed
import Capuchin.Proofs.Limit.Cut

namespace Capuchin.Parse

/-- Expressions that stand open in a state, with the one that the next token may open at once. -/
def State.depth : State → Nat
  | .statement site _ | .letName site _ | .letAssign site _ _ => site.depth + 1
  | .operand hole | .operator hole _ | .ifOpen hole | .thenOpen hole _ | .thenDone hole _ _
  | .elseOpen hole _ _ | .fnOpen hole | .firstParam hole | .nextParam hole _ | .paramDone hole _
  | .bodyOpen hole _ => hole.depth
  | .firstElement hole | .firstArgument hole _ | .hashEntry hole _ => hole.depth + 1
  | .finished _ => 0

/-- What a step from a state of some depth does under two limits. It opens at most one expression
beyond the depth, and that one may be too many for the lower limit, unless the depth already was. -/
inductive Metered (limit more depth : Nat) : Step → Step → Prop where
  | goesOn (room : next.depth ≤ depth + 1) : Metered limit more depth (.ok next) (.ok next)
  | refuses (other : reason ≠ .overflow) : Metered limit more depth (.error reason) (.error reason)
  | opens {hole : Hole} (deep : limit < hole.depth) (room : hole.depth ≤ depth + 1) :
      Metered limit more depth (.error .overflow) (hole.enter more)
  | exceeded (deep : limit < depth) : Metered limit more depth (.error .overflow) wider

namespace Metered

variable {limit more depth : Nat} {step wider : Step}

theorem cut (metered : Metered limit more depth step wider) : Cut .overflow step wider := by
  cases metered with
  | goesOn => exact .refl _
  | refuses => exact .refl _
  | opens => exact .inl rfl
  | exceeded => exact .inl rfl

theorem depth_le {next : State} (metered : Metered limit more depth (.ok next) wider) :
    next.depth ≤ depth + 1 := by
  cases metered with
  | goesOn room => exact room

theorem limit_le (metered : Metered limit more depth (.error .overflow) wider) : limit ≤ depth := by
  cases metered with
  | refuses other => exact absurd rfl other
  | opens deep room => omega
  | exceeded deep => omega

/-- A step that is cut off only by the lower limit opens an expression that is too deep for it. -/
theorem opens_deep (metered : Metered limit more depth (.error .overflow) wider)
    (room : depth ≤ limit) (further : limit < more) :
    ∃ hole, wider = .ok (.operand hole) ∧ limit < hole.depth := by
  cases metered with
  | refuses other => exact absurd rfl other
  | @opens hole deep within =>
    refine ⟨hole, ?_, deep⟩
    rw [Hole.enter, if_pos (by omega)]
  | exceeded deep => omega

end Metered

section Steps

variable {limit more depth : Nat} {hole : Hole} {site : Site}

theorem expect_metered (mark : Mark) (token : Token) {step wider : Step}
    (metered : Metered limit more depth step wider) :
    Metered limit more depth (expect mark token step) (expect mark token wider) := by
  unfold expect
  split
  · exact metered
  · exact .refuses nofun

theorem param_metered (room : hole.depth ≤ depth) (params : List String) (token : Token) :
    Metered limit more depth (hole.param params token) (hole.param params token) := by
  unfold Hole.param
  split
  · exact .goesOn (Nat.le_succ_of_le room)
  · exact .refuses nofun

theorem close_depth {next : State} (closed : site.close? done = some next) :
    next.depth = site.depth := by
  cases site <;> cases closed <;> rfl

variable (order : limit ≤ more)

include order

theorem enter_metered (room : hole.depth ≤ depth + 1) :
    Metered limit more depth (hole.enter limit) (hole.enter more) := by
  by_cases fits : hole.depth ≤ limit
  · rw [Hole.enter, Hole.enter, if_pos fits, if_pos (Nat.le_trans fits order)]
    exact .goesOn room
  · rw [Hole.enter, if_neg fits]
    exact .opens (Nat.lt_of_not_le fits) room

theorem begin_metered (room : hole.depth ≤ depth) (token : Token) :
    Metered limit more depth (hole.begin limit token) (hole.begin more token) := by
  unfold Hole.begin
  split <;> first
    | exact enter_metered order (Nat.succ_le_succ room)
    | exact .goesOn (Nat.le_succ_of_le room)
    | exact .goesOn (Nat.succ_le_succ room)
    | exact .refuses nofun

theorem enterWith_metered (room : hole.depth ≤ depth) (token : Token) :
    Metered limit more depth (hole.enterWith limit token) (hole.enterWith more token) := by
  by_cases fits : hole.depth ≤ limit
  · rw [Hole.enterWith, Hole.enterWith, if_pos fits, if_pos (Nat.le_trans fits order)]
    exact begin_metered order room token
  · rw [Hole.enterWith, if_neg fits]
    exact .exceeded (by omega)

theorem start_metered (room : site.depth + 1 ≤ depth) (done : List Node) (token : Token) :
    Metered limit more depth (site.start limit done token) (site.start more done token) := by
  unfold Site.start
  split
  · cases site with
    | program => exact .goesOn (Nat.zero_le _)
    | _ => exact .refuses nofun
  · exact .goesOn (Nat.le_succ_of_le room)
  · exact enter_metered order (Nat.le_succ_of_le room)
  · split
    · rename_i closed
      exact .goesOn (by rw [close_depth closed]; omega)
    · exact enterWith_metered order room _
  · exact enterWith_metered order room _

theorem next_metered (room : site.depth + 1 ≤ depth) (done : List Node) (token : Token) :
    Metered limit more depth (site.next limit done token) (site.next more done token) := by
  unfold Site.next
  split
  · exact .goesOn (Nat.le_succ_of_le room)
  · exact start_metered order room done token

theorem extend_metered (room : hole.depth ≤ depth) (expression : Node) (next : Continuation) :
    Metered limit more depth (hole.extend limit expression next)
      (hole.extend more expression next) := by
  cases next with
  | binary op => exact enter_metered order (Nat.succ_le_succ room)
  | call => exact .goesOn (Nat.succ_le_succ room)
  | index => exact enter_metered order (Nat.succ_le_succ room)

theorem resume_metered (token : Token) {hole : Hole} (room : hole.depth ≤ depth)
    (expression : Node) :
    Metered limit more depth (hole.resume limit token expression)
      (hole.resume more token expression) := by
  rw [Hole.resume.eq_def, Hole.resume.eq_def more]
  split
  · exact extend_metered order room expression _
  · -- Filling the hole closes one expression, so there is room for the place around it.
    split <;> simp only [Hole.depth] at room
    · exact next_metered order room _ _
    · exact next_metered order room _ _
    · exact next_metered order room _ _
    · exact resume_metered token (Nat.le_of_succ_le room) _
    · exact resume_metered token (Nat.le_of_succ_le room) _
    · exact expect_metered _ _ (.goesOn (by simp only [State.depth]; omega))
    · exact expect_metered _ _ (.goesOn (by simp only [State.depth]; omega))
    · split
      · exact enter_metered order (Nat.le_succ_of_le room)
      · exact expect_metered _ _ (.goesOn (by simp only [State.depth]; omega))
    · split
      · exact enter_metered order (Nat.le_succ_of_le room)
      · exact expect_metered _ _ (.goesOn (by simp only [State.depth]; omega))
    · exact expect_metered _ _ (enter_metered order (Nat.le_succ_of_le room))
    · split
      · exact .goesOn (by simp only [State.depth]; omega)
      · exact expect_metered _ _ (.goesOn (by simp only [State.depth]; omega))
    · exact expect_metered _ _ (.goesOn (by simp only [State.depth]; omega))
termination_by hole.depth
decreasing_by all_goals subst_vars; simp [Hole.depth]

/-- The step lemma: what a fed token does under two limits. -/
theorem feed_metered (state : State) (token : Token) :
    Metered limit more state.depth (state.feed limit token) (state.feed more token) := by
  cases state with
  | statement site done => exact start_metered order (Nat.le_refl _) done token
  | letName site done =>
    simp only [State.feed]
    split
    · exact .goesOn (Nat.le_succ _)
    · exact .refuses nofun
  | letAssign site done name => exact expect_metered _ _ (enter_metered order (Nat.le_succ _))
  | operand hole => exact begin_metered order (Nat.le_refl _) token
  | operator hole expression => exact resume_metered order token (Nat.le_refl _) expression
  | ifOpen hole => exact expect_metered _ _ (enter_metered order (Nat.le_refl _))
  | thenOpen hole condition => exact expect_metered _ _ (.goesOn (Nat.le_refl _))
  | thenDone hole condition consequence =>
    simp only [State.feed]
    split
    · exact .goesOn (Nat.le_succ _)
    · exact resume_metered order token (Nat.le_refl _) _
  | elseOpen hole condition consequence => exact expect_metered _ _ (.goesOn (Nat.le_refl _))
  | fnOpen hole => exact expect_metered _ _ (.goesOn (Nat.le_succ _))
  | firstParam hole =>
    simp only [State.feed]
    split
    · exact .goesOn (Nat.le_succ _)
    · exact param_metered (Nat.le_refl _) [] token
  | nextParam hole params => exact param_metered (Nat.le_refl _) params token
  | paramDone hole params =>
    simp only [State.feed]
    split
    · exact .goesOn (Nat.le_succ _)
    · exact expect_metered _ _ (.goesOn (Nat.le_succ _))
  | bodyOpen hole params => exact expect_metered _ _ (.goesOn (Nat.le_refl _))
  | firstElement hole =>
    simp only [State.feed]
    split
    · exact .goesOn (Nat.le_add_right hole.depth 2)
    · exact enterWith_metered order (Nat.le_refl (hole.depth + 1)) token
  | firstArgument hole callee =>
    simp only [State.feed]
    split
    · exact .goesOn (Nat.le_add_right hole.depth 2)
    · exact enterWith_metered order (Nat.le_refl (hole.depth + 1)) token
  | hashEntry hole done =>
    simp only [State.feed]
    split
    · exact .goesOn (Nat.le_add_right hole.depth 2)
    · exact enterWith_metered order (Nat.le_refl (hole.depth + 1)) token
  | finished statements => exact .goesOn (Nat.zero_le _)

theorem feedAll_cut (state : State) (tokens : List Token) :
    Cut .overflow (state.feedAll limit tokens) (state.feedAll more tokens) := by
  induction tokens generalizing state with
  | nil => exact .refl _
  | cons token tokens ih =>
    simp only [State.feedAll, List.foldlM_cons]
    exact (feed_metered order state token).cut.bind ih

theorem ofTokens_cut (tokens : List Token) :
    Cut .overflow (Node.ofTokens limit tokens) (Node.ofTokens more tokens) :=
  (feedAll_cut order State.start tokens).bind fun _ => .refl _

end Steps

/-- A reader is cut off nowhere but at a token. -/
theorem feedAll_overflow_of_ofTokens (stopped : Node.ofTokens limit tokens = .error .overflow) :
    State.start.feedAll limit tokens = .error .overflow := by
  simp only [Node.ofTokens] at stopped
  cases fed : State.start.feedAll limit tokens with
  | error reason =>
    rw [fed] at stopped
    cases stopped
    rfl
  | ok state =>
    rw [fed] at stopped
    cases state <;> cases stopped

theorem feedAll_roomy (state : State) (tokens : List Token)
    (stopped : state.feedAll limit tokens = .error .overflow) :
    limit < state.depth + tokens.length := by
  induction tokens generalizing state with
  | nil => cases stopped
  | cons token tokens ih =>
    have metered := feed_metered (Nat.le_refl limit) state token
    simp only [State.feedAll, List.foldlM_cons] at stopped
    simp only [List.length_cons]
    cases fed : state.feed limit token with
    | error reason =>
      rw [fed] at stopped metered
      cases stopped
      have bound := metered.limit_le
      omega
    | ok next =>
      rw [fed] at stopped metered
      have bound := ih next stopped
      have step := metered.depth_le
      omega

theorem ofTokens_ne_overflow (tokens : List Token) (room : tokens.length < limit) :
    Node.ofTokens limit tokens ≠ .error .overflow := by
  intro stopped
  have bound := feedAll_roomy State.start tokens (feedAll_overflow_of_ofTokens stopped)
  simp only [State.start, State.depth, Site.depth] at bound
  omega

end Capuchin.Parse
