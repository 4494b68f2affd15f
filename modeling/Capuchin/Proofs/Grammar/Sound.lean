import Capuchin.Proofs.Grammar.Feeding
import Capuchin.Proofs.Grammar.Reached

namespace Capuchin.Grammar

open Parse

section Steps

variable {limit : Nat} {token first : Token} {tokens before outside own : List Token}
  {node : Node} {done : List Node} {hole : Hole} {site : Site} {next : State} {tier : Tier}

theorem enter_reached (reached : ∀ first, HoleReached before first hole)
    (fed : hole.enter limit = .ok next) : Reached before next := by
  unfold Hole.enter at fed
  split at fed
  · cases fed
    exact .operand reached
  · cases fed

theorem expect_reached {mark : Mark} {step : Step} (fed : expect mark token step = .ok next) :
    token = .mark mark ∧ step = .ok next := by
  unfold expect at fed
  split at fed
  · exact ⟨‹_›, fed⟩
  · cases fed

/-- An expression of the tightest tier is held by the state `operator`. -/
theorem primary_reached (outer : HoleReached before first hole)
    (spelled : Spells (first :: tokens) (.expression .primary node)) :
    Reached (before ++ first :: tokens) (.operator hole node) :=
  .operator outer (.loosen spelled)

theorem begin_reached (outer : HoleReached before token hole)
    (fed : hole.begin limit token = .ok next) : Reached (before ++ [token]) next := by
  unfold Hole.begin at fed
  split at fed
  · cases fed
    exact primary_reached outer .ident
  · cases fed
    exact primary_reached outer .int
  · cases fed
    exact primary_reached outer .str
  · cases fed
    exact primary_reached outer .yes
  · cases fed
    exact primary_reached outer .no
  · cases fed
    exact .ifOpen outer
  · cases fed
    exact .fnOpen outer
  · exact enter_reached (fun _ => .bang outer) fed
  · exact enter_reached (fun _ => .minus outer) fed
  · exact enter_reached (fun _ => .group outer) fed
  · cases fed
    exact .firstElement outer
  · cases fed
    exact .hashEntry outer .nil
  · cases fed

theorem enterWith_reached (outer : HoleReached before token hole)
    (fed : hole.enterWith limit token = .ok next) : Reached (before ++ [token]) next := by
  unfold Hole.enterWith at fed
  split at fed
  · exact begin_reached outer fed
  · cases fed

/-- The brace that ends a list of statements makes them a block. -/
theorem close_reached (reached : SiteReached outside site) (whole : Spells own (.statements done))
    (closed : site.close? done = some next) :
    Reached (outside ++ (own ++ [.mark .rbrace])) next := by
  cases reached with
  | program => cases closed
  | thenBranch outer condition =>
    cases closed
    simpa using Reached.thenDone outer condition (.block whole)
  | elseBranch outer condition consequence =>
    cases closed
    simpa using primary_reached outer (.ifElse condition consequence (.block whole))
  | body outer params =>
    cases closed
    simpa using primary_reached outer (.fn params (.block whole))

theorem start_reached (reached : SiteReached outside site) (fits : Fits own done token)
    (fed : site.start limit done token = .ok next) :
    Reached (outside ++ (own ++ [token])) next := by
  unfold Site.start at fed
  split at fed
  · cases reached with
    | program =>
      cases fed
      exact .finished fits.whole
    | _ => cases fed
  · cases fed
    exact .letName reached fits
  · exact enter_reached (fun _ => .returnValue reached fits) fed
  · split at fed
    · rename_i closed
      cases fed
      exact close_reached reached fits.whole closed
    · simpa using enterWith_reached (.statement reached fits) fed
  · simpa using enterWith_reached (.statement reached fits) fed

theorem next_reached (reached : SiteReached outside site) (trails : Trails own done)
    (apart : joins token = false) (fed : site.next limit done token = .ok next) :
    Reached (outside ++ (own ++ [token])) next := by
  unfold Site.next at fed
  split at fed
  · rename_i sealed
    subst sealed
    cases fed
    exact .statement reached trails.closed
  · exact start_reached reached (trails.fits token apart) fed

/-- Going on with an expression: the token takes it as its left part. -/
theorem extend_reached (outer : HoleReached before first hole)
    (spelled : Spells (first :: tokens) (.expression tier node)) (within : Within tier token)
    (found : continuation? token = some more) (tight : hole.level < more.level)
    (fed : hole.extend limit node more = .ok next) :
    Reached (before ++ first :: (tokens ++ [token])) next := by
  have bound := within more found
  cases more with
  | binary op =>
    obtain ⟨mark, opened, rfl, written⟩ := operator_of_continuation found
    have order : opened.rank ≤ tier.rank := by
      simp only [Continuation.level, binaryLevel_operator written] at bound
      have tierOf := opTier_operator written
      subst tierOf
      cases op <;> cases tier <;> simp [opTier, Tier.reach, Tier.rank] at bound ⊢
    exact enter_reached (fun _ => .right outer (spelled.loosen_to order) written
      (takes_operator tight written)) fed
  | call =>
    cases call_of_continuation found
    have order : Tier.applied.rank ≤ tier.rank := by
      cases tier <;> simp [Continuation.level, Tier.reach, Tier.rank] at bound ⊢
    cases fed
    exact .firstArgument outer (spelled.loosen_to order)
  | index =>
    cases index_of_continuation found
    have order : Tier.applied.rank ≤ tier.rank := by
      cases tier <;> simp [Continuation.level, Tier.reach, Tier.rank] at bound ⊢
    exact enter_reached (fun _ => .position outer (spelled.loosen_to order)) fed

end Steps

/-- The step lemma of going on: the token after an expression is read by the hole, or else fills
the hole and is read by the place around it. -/
theorem resume_reached {hole : Hole} {next : State} (outer : HoleReached before first hole)
    (spelled : Spells (first :: tokens) (.expression tier node))
    (takes : (holeTier hole).rank ≤ tier.rank) (within : Within tier token)
    (fed : hole.resume limit token node = .ok next) :
    Reached (before ++ first :: (tokens ++ [token])) next := by
  rw [Hole.resume.eq_def] at fed
  rcases tighter?_cases hole.level token with ⟨more, tighter, found, tight⟩ | ⟨free, loose⟩
  · rw [tighter] at fed
    exact extend_reached outer spelled within found tight fed
  rw [free] at fed
  have whole : Spells (first :: tokens) (.whole node) := spelled.loosen_to (Nat.zero_le _)
  cases outer with
  | letValue reached fits =>
    have apart := joins_eq_false_of_level loose
    simpa using next_reached reached (fits.trails (.letStmt whole)) apart fed
  | returnValue reached fits =>
    have apart := joins_eq_false_of_level loose
    simpa using next_reached reached (fits.trails (.returnStmt whole)) apart fed
  | statement reached fits =>
    have apart := joins_eq_false_of_level loose
    simpa using next_reached reached (fits.trails (.exprStmt whole)) apart fed
  | bang outer =>
    have signed := Spells.bang (spelled.loosen_to takes)
    simpa using resume_reached outer signed (holeTier_rank_le _) loose fed
  | minus outer =>
    have signed := Spells.minus (spelled.loosen_to takes)
    simpa using resume_reached outer signed (holeTier_rank_le _) loose fed
  | right outer left written above =>
    rw [holeTier_right _ _ written] at takes
    have joined := left.binary written (spelled.loosen_to takes)
    have strength := Nat.le_of_eq (binaryLevel_operator written)
    simpa using resume_reached outer joined above
      (fun more found => Nat.le_trans (loose more found) strength) fed
  | group outer =>
    obtain ⟨rfl, fed⟩ := expect_reached fed
    cases fed
    simpa using primary_reached outer (.group whole)
  | condition outer =>
    obtain ⟨rfl, fed⟩ := expect_reached fed
    cases fed
    simpa using Reached.thenOpen outer whole
  | element outer leads =>
    dsimp only at fed
    split at fed
    · rename_i comma
      subst comma
      have longer : Leads .items (_ ++ first :: (tokens ++ [.mark .comma])) _ :=
        leads.add whole
      simpa using enter_reached (fun _ => .element outer longer) fed
    · obtain ⟨rfl, fed⟩ := expect_reached fed
      cases fed
      simpa using primary_reached outer (.array (.someItems (leads _ _ (.lastItem whole))))
  | argument outer callee leads =>
    dsimp only at fed
    split at fed
    · rename_i comma
      subst comma
      have longer : Leads .items (_ ++ first :: (tokens ++ [.mark .comma])) _ :=
        leads.add whole
      simpa using enter_reached (fun _ => .argument outer callee longer) fed
    · obtain ⟨rfl, fed⟩ := expect_reached fed
      cases fed
      simpa using Reached.operator outer (callee.call (.someItems (leads _ _ (.lastItem whole))))
  | key outer leads =>
    obtain ⟨rfl, fed⟩ := expect_reached fed
    simpa using enter_reached (fun _ => .value outer leads whole) fed
  | value outer leads key =>
    dsimp only at fed
    split at fed
    · rename_i brace
      subst brace
      cases fed
      simpa using primary_reached outer (.hash (leads _ _ (key.lastEntry whole)))
    · obtain ⟨rfl, fed⟩ := expect_reached fed
      cases fed
      simpa using Reached.hashEntry outer (leads.addEntry key whole)
  | position outer left =>
    obtain ⟨rfl, fed⟩ := expect_reached fed
    cases fed
    simpa using Reached.operator outer (left.index whole)
termination_by hole.depth
decreasing_by all_goals subst_vars; simp [Hole.depth]

theorem resume_applied {hole : Hole} {next : State} (outer : HoleReached before first hole)
    (spelled : Spells (first :: tokens) (.expression .applied node))
    (fed : hole.resume limit token node = .ok next) :
    Reached (before ++ first :: (tokens ++ [token])) next :=
  resume_reached outer spelled (Nat.le_trans (holeTier_rank_le hole) (Nat.le_succ 4))
    (within_applied token) fed

theorem param_reached {next : State} (outer : HoleReached before (.keyword .fnWord) hole)
    (leads : Leads .names own params) (fed : hole.param params token = .ok next) :
    Reached (before ++ .keyword .fnWord :: .mark .lparen :: (own ++ [token])) next := by
  unfold Hole.param at fed
  split at fed
  · rename_i name
    cases fed
    exact .paramDone outer (leads _ _ .lastName) (by simpa using leads.addName name)
  · cases fed

/-- The step lemma: a fed token is read. -/
theorem Reached.feed {next : State} (reached : Reached tokens state)
    (fed : state.feed limit token = .ok next) : Reached (tokens ++ [token]) next := by
  cases reached with
  | statement site leads => simpa using start_reached site (leads.fits token) fed
  | letName site fits =>
    simp only [State.feed] at fed
    split at fed
    · cases fed
      simpa using Reached.letAssign site fits
    · cases fed
  | letAssign site fits =>
    obtain ⟨rfl, fed⟩ := expect_reached fed
    simpa using enter_reached (fun _ => .letValue site fits) fed
  | operand hole => exact begin_reached (hole token) fed
  | operator outer spelled =>
    simpa using resume_applied outer spelled fed
  | ifOpen outer =>
    obtain ⟨rfl, fed⟩ := expect_reached fed
    simpa using enter_reached (fun _ => .condition outer) fed
  | thenOpen outer condition =>
    obtain ⟨rfl, fed⟩ := expect_reached fed
    cases fed
    simpa using Reached.statement (.thenBranch outer condition) .nil
  | thenDone outer condition consequence =>
    simp only [State.feed] at fed
    split at fed
    · rename_i other
      subst other
      cases fed
      simpa using Reached.elseOpen outer condition consequence
    · simpa using resume_applied outer (.loosen (.ifThen condition consequence)) fed
  | elseOpen outer condition consequence =>
    obtain ⟨rfl, fed⟩ := expect_reached fed
    cases fed
    simpa using Reached.statement (.elseBranch outer condition consequence) .nil
  | fnOpen outer =>
    obtain ⟨rfl, fed⟩ := expect_reached fed
    cases fed
    simpa using Reached.firstParam outer
  | firstParam outer =>
    simp only [State.feed] at fed
    split at fed
    · rename_i paren
      subst paren
      cases fed
      simpa using Reached.bodyOpen outer .noParams
    · simpa using param_reached outer .nil fed
  | nextParam outer leads => simpa using param_reached outer leads fed
  | paramDone outer whole leads =>
    simp only [State.feed] at fed
    split at fed
    · rename_i comma
      subst comma
      cases fed
      simpa using Reached.nextParam outer leads
    · obtain ⟨rfl, fed⟩ := expect_reached fed
      cases fed
      simpa using Reached.bodyOpen outer (.someParams whole)
  | bodyOpen outer params =>
    obtain ⟨rfl, fed⟩ := expect_reached fed
    cases fed
    simpa using Reached.statement (.body outer params) .nil
  | firstElement outer =>
    simp only [State.feed] at fed
    split at fed
    · rename_i bracket
      subst bracket
      cases fed
      simpa using primary_reached outer (.array .noItems)
    · simpa using enterWith_reached (.element outer .nil) fed
  | firstArgument outer callee =>
    simp only [State.feed] at fed
    split at fed
    · rename_i paren
      subst paren
      cases fed
      simpa using Reached.operator outer (callee.call .noItems)
    · simpa using enterWith_reached (.argument outer callee .nil) fed
  | hashEntry outer leads =>
    simp only [State.feed] at fed
    split at fed
    · rename_i brace
      subst brace
      cases fed
      simpa using primary_reached outer (.hash (leads _ _ .noEntries))
    · simpa using enterWith_reached (.key outer leads) fed
  | finished spelled =>
    cases fed
    simpa using Reached.finished spelled

/-- The run lemma: all fed tokens are read. -/
theorem Reached.feedAll {next : State} (reached : Reached tokens state)
    (fed : state.feedAll limit others = .ok next) : Reached (tokens ++ others) next := by
  induction others generalizing tokens state with
  | nil =>
    cases fed
    simpa using reached
  | cons token others ih =>
    obtain ⟨middle, first, rest⟩ := feedAll_cons_ok fed
    simpa using ih (reached.feed first) rest

/-- What stands before the first occurrence of an element is determined. -/
private theorem before_first_unique {xs ys : List α} (left : a ∉ xs) (right : a ∉ ys)
    (same : xs ++ a :: rest = ys ++ a :: others) : xs = ys := by
  induction xs generalizing ys with
  | nil =>
    cases ys with
    | nil => rfl
    | cons y ys => simp_all
  | cons x xs ih =>
    cases ys with
    | nil => simp_all
    | cons y ys =>
      simp only [List.cons_append, List.cons.injEq] at same
      rw [same.1, ih (by simp_all) (by simp_all) same.2]

/-- A program that is read from tokens up to the first end mark is derived by them. -/
theorem program_of_ofTokens (only : Token.eof ∉ tokens)
    (read : Node.ofTokens limit (tokens ++ Token.eof :: rest) = .ok tree) : Program tokens tree := by
  obtain ⟨statements, rfl, fed⟩ := feedAll_of_ofTokens read
  have begun : Reached [] State.start := .statement .program .nil
  have reached := begun.feedAll fed
  rw [List.nil_append] at reached
  generalize same : tokens ++ .eof :: rest = all at reached
  cases reached with
  | finished spelled =>
    rw [before_first_unique only spelled.eof_notMem same]
    exact ⟨statements, rfl, spelled⟩

end Capuchin.Grammar
