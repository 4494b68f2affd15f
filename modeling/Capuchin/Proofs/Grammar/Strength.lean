import Capuchin.Parse.Feed
import Capuchin.Proofs.Grammar.Basic

namespace Capuchin.Grammar

open Parse

/-- The tightest token that takes an expression of this tier as a whole. -/
def Tier.reach : Tier → Nat
  | equality => 2
  | comparison => 3
  | sum => 4
  | product => 5
  | unary => 6
  | applied => 8
  | primary => 8

theorem Tier.reach_mono {outer inner : Tier} (order : outer.rank ≤ inner.rank) :
    outer.reach ≤ inner.reach := by
  cases outer <;> cases inner <;> simp [rank, reach] at order ⊢

theorem Tier.rank_le_above (tier : Tier) : tier.rank ≤ tier.above.rank := by
  cases tier <;> decide

/-- The tier of an infix operator. -/
def opTier : BinaryOp → Tier
  | .eq | .notEq => .equality
  | .lt | .gt => .comparison
  | .plus | .minus => .sum
  | .times | .divide => .product
  | .other _ => .equality

/-- The loosest tier a hole takes. -/
def holeTier : Hole → Tier
  | .operand _ _ => .unary
  | .right _ _ (.other _) => .equality
  | .right _ _ op => (opTier op).above
  | _ => .equality

theorem level_le (hole : Hole) : hole.level ≤ 6 := by
  cases hole with
  | right outer left op => cases op <;> simp [Hole.level, binaryLevel]
  | _ => simp [Hole.level]

theorem holeTier_rank_le (hole : Hole) : (holeTier hole).rank ≤ Tier.unary.rank := by
  cases hole with
  | right outer left op => cases op <;> simp [holeTier, opTier, Tier.above, Tier.rank]
  | _ => simp [holeTier, Tier.rank]

/-- The token binds no tighter than an expression of this tier. -/
def Within (tier : Tier) (token : Token) : Prop :=
  ∀ next, continuation? token = some next → next.level ≤ tier.reach

theorem Within.mono {outer inner : Tier} (within : Within outer token)
    (order : outer.rank ≤ inner.rank) : Within inner token := by
  intro next found
  exact Nat.le_trans (within next found) (Tier.reach_mono order)

theorem within_applied (token : Token) : Within .applied token := by
  intro next _
  cases next with
  | binary op => cases op <;> simp [Continuation.level, binaryLevel, Tier.reach]
  | call => simp [Continuation.level, Tier.reach]
  | index => simp [Continuation.level, Tier.reach]

theorem continuation?_eq_none (apart : joins token = false) : continuation? token = none := by
  cases token with
  | mark mark => cases mark <;> first | rfl | simp [joins, operator?] at apart
  | _ => rfl

theorem joins_eq_false (free : continuation? token = none) : joins token = false := by
  cases token with
  | mark mark => cases mark <;> first | rfl | simp [continuation?] at free
  | _ => rfl

theorem binaryLevel_operator (written : operator? mark = some (tier, op)) :
    binaryLevel op = tier.reach := by
  cases mark <;> simp [operator?] at written <;> obtain ⟨rfl, rfl⟩ := written <;> rfl

/-- Which token an infix continuation comes from. -/
theorem operator_of_continuation (found : continuation? token = some (.binary op)) :
    ∃ mark tier, token = .mark mark ∧ operator? mark = some (tier, op) := by
  cases token with
  | mark mark =>
    cases mark <;> simp [continuation?] at found <;> subst found <;> exact ⟨_, _, rfl, rfl⟩
  | _ => simp [continuation?] at found

theorem joins_eq_false_of_level
    (loose : ∀ next, continuation? token = some next → next.level ≤ 1) : joins token = false := by
  apply joins_eq_false
  cases found : continuation? token with
  | none => rfl
  | some next =>
    have bound := loose next found
    cases next with
    | binary op =>
      obtain ⟨mark, tier, rfl, written⟩ := operator_of_continuation found
      rw [Continuation.level, binaryLevel_operator written] at bound
      cases tier <;> simp [Tier.reach] at bound
    | _ => simp [Continuation.level] at bound

theorem within_of_not_joins (apart : joins token = false) (tier : Tier) : Within tier token := by
  intro next found
  rw [continuation?_eq_none apart] at found
  cases found

theorem continuation?_operator (written : operator? mark = some (tier, op)) :
    continuation? (.mark mark) = some (.binary op) := by
  cases mark <;> simp [operator?] at written <;> obtain ⟨rfl, rfl⟩ := written <;> rfl

theorem opTier_operator (written : operator? mark = some (tier, op)) : opTier op = tier := by
  cases mark <;> simp [operator?] at written <;> obtain ⟨rfl, rfl⟩ := written <;> rfl

theorem holeTier_right (outer : Hole) (left : Node) (written : operator? mark = some (tier, op)) :
    holeTier (.right outer left op) = tier.above := by
  cases mark <;> simp [operator?] at written <;> obtain ⟨rfl, rfl⟩ := written <;> rfl

theorem call_of_continuation (found : continuation? token = some .call) :
    token = .mark .lparen := by
  cases token with
  | mark mark => cases mark <;> simp [continuation?] at found ⊢
  | _ => simp [continuation?] at found

theorem index_of_continuation (found : continuation? token = some .index) :
    token = .mark .lbracket := by
  cases token with
  | mark mark => cases mark <;> simp [continuation?] at found ⊢
  | _ => simp [continuation?] at found

/-- An operator of a tier the hole takes binds tighter than what stands before the hole. -/
theorem level_lt_operator (takes : (holeTier hole).rank ≤ tier.rank)
    (written : operator? mark = some (tier, op)) : hole.level < binaryLevel op := by
  have tierOf := opTier_operator written
  subst tierOf
  have known : op ∈ BinaryOp.written := by
    cases mark <;> simp [operator?] at written <;> obtain ⟨_, rfl⟩ := written <;> decide
  cases hole with
  | operand outer sign => cases op <;> simp [holeTier, Tier.rank, opTier] at takes
  | right outer left inner =>
    cases inner <;> cases op <;>
      simp [holeTier, Tier.rank, Tier.above, opTier, Hole.level, binaryLevel,
        BinaryOp.written] at takes known ⊢
  | _ => cases op <;> simp [Hole.level, binaryLevel, BinaryOp.written] at known ⊢

/-- An operator that binds tighter than what stands before the hole has a tier the hole takes. -/
theorem takes_operator (tighter : hole.level < binaryLevel op)
    (written : operator? mark = some (tier, op)) : (holeTier hole).rank ≤ tier.rank := by
  have tierOf := opTier_operator written
  subst tierOf
  cases hole with
  | operand outer sign => cases op <;> simp [Hole.level, binaryLevel] at tighter
  | right outer left inner =>
    cases inner <;> cases op <;>
      simp [holeTier, Tier.rank, Tier.above, opTier, Hole.level, binaryLevel] at tighter ⊢
  | _ => simp [holeTier, Tier.rank]

theorem tighter?_eq_none (loose : ∀ next, continuation? token = some next → next.level ≤ level) :
    tighter? level token = none := by
  cases found : continuation? token with
  | none => simp [tighter?, found]
  | some next =>
    have bound := loose next found
    simp [tighter?, found, Option.filter]
    omega

theorem tighter?_eq_some (found : continuation? token = some next) (tight : level < next.level) :
    tighter? level token = some next := by
  simp [tighter?, found, Option.filter, tight]

theorem tighter?_cases (level : Nat) (token : Token) :
    (∃ next, tighter? level token = some next ∧ continuation? token = some next ∧
      level < next.level) ∨
    (tighter? level token = none ∧
      ∀ next, continuation? token = some next → next.level ≤ level) := by
  cases found : continuation? token with
  | none => exact .inr ⟨by simp [tighter?, found], by simp⟩
  | some next =>
    by_cases tight : level < next.level
    · exact .inl ⟨next, tighter?_eq_some found tight, rfl, tight⟩
    · refine .inr ⟨by simp [tighter?, found, Option.filter, tight], ?_⟩
      rintro other ⟨⟩
      omega

end Capuchin.Grammar
