import Capuchin.Proofs.Grammar.Sound
import Capuchin.Proofs.Limit.Reading
import Mathlib

namespace Capuchin

namespace Token

/-- What a token adds to the brackets that are open. -/
def opening : Token → Int
  | .mark .lparen | .mark .lbracket | .mark .lbrace => 1
  | .mark .rparen | .mark .rbracket | .mark .rbrace => -1
  | _ => 0

/-- Opening brackets less closing ones. -/
def balance (tokens : List Token) : Int :=
  (tokens.map opening).sum

/-- The greatest balance of a first part of the tokens, which is never below that of no tokens. -/
def deepest (tokens : List Token) : Nat :=
  (tokens.inits.map fun part => (balance part).toNat).foldr max 0

/-- The marks that can stand before an operand. -/
def isSign : Token → Bool
  | .mark .bang | .mark .minus => true
  | _ => false

/-- The length of the longest run of signs. -/
def longestRun (tokens : List Token) : Nat :=
  (tokens.tails.map fun rest => (rest.takeWhile isSign).length).foldr max 0

@[simp] theorem balance_nil : balance [] = 0 :=
  rfl

@[simp] theorem balance_cons (token : Token) (tokens : List Token) :
    balance (token :: tokens) = token.opening + balance tokens := by
  simp [balance]

@[simp] theorem balance_append (tokens others : List Token) :
    balance (tokens ++ others) = balance tokens + balance others := by
  simp [balance]

/-- At most `opened` brackets are open at once, and at most `run` signs follow each other. -/
structure Bounded (opened run : Nat) (tokens : List Token) : Prop where
  balance_le : part <+: tokens → balance part ≤ opened
  length_le : signs <:+: tokens → (∀ sign ∈ signs, sign.isSign = true) → signs.length ≤ run

theorem Bounded.left (bounded : Bounded opened run (tokens ++ others)) :
    Bounded opened run tokens where
  balance_le part := bounded.balance_le (part.trans (List.prefix_append _ _))
  length_le signs := bounded.length_le (signs.trans (List.prefix_append _ _).isInfix)

theorem bounded_deepest (tokens : List Token) :
    Bounded (deepest tokens) (longestRun tokens) tokens := by
  constructor
  · intro part first
    have least : (balance part).toNat ≤ deepest tokens :=
      List.le_max_of_le (List.mem_map_of_mem ((List.mem_inits _ _).mpr first)) (Nat.le_refl _)
    omega
  · rintro signs ⟨earlier, later, rfl⟩ all
    have tail : signs ++ later ∈ (earlier ++ signs ++ later).tails := by
      rw [List.mem_tails, List.append_assoc]
      exact List.suffix_append _ _
    have least : ((signs ++ later).takeWhile isSign).length ≤
        longestRun (earlier ++ signs ++ later) :=
      List.le_max_of_le (List.mem_map_of_mem tail) (Nat.le_refl _)
    rw [List.takeWhile_append_of_pos all, List.length_append] at least
    omega

end Token

namespace Grammar

open Parse
open Token (balance opening Bounded)

theorem opening_operator (written : operator? mark = some (tier, op)) :
    opening (.mark mark) = 0 := by
  cases mark <;> first | rfl | cases written

/-- What is derived closes all the brackets that it opens, and no others. -/
theorem Spells.balance_eq (spelled : Spells tokens phrase) : balance tokens = 0 := by
  induction spelled with
  | binary _ written _ left right => simp [opening_operator written, left, right]
  | _ => simp_all [opening]

theorem Leads.balance_eq {phrase : List α → Phrase} (leads : Leads phrase tokens done)
    (closing : Spells more (phrase rest)) : balance tokens = 0 := by
  have whole := (leads more rest closing).balance_eq
  rw [Token.balance_append, closing.balance_eq] at whole
  omega

theorem Leads.balance_items (leads : Leads .items tokens done) : balance tokens = 0 := by
  have item : Spells [.keyword .trueWord] (.expression .primary (.bool true)) := .yes
  exact leads.balance_eq (.lastItem (item.loosen_to (Nat.zero_le _)))

/-- Signs right before a hole. -/
def signsBefore : Hole → Nat
  | .operand hole _ => signsBefore hole + 1
  | _ => 0

/-- The signs right before a hole are the last tokens that lead to it. -/
theorem HoleReached.signs (reached : HoleReached before first hole) :
    ∃ earlier signs, before = earlier ++ signs ∧ signs.length = signsBefore hole ∧
      ∀ sign ∈ signs, sign.isSign = true := by
  cases reached with
  | bang outer =>
    obtain ⟨earlier, signs, rfl, length, all⟩ := outer.signs
    refine ⟨earlier, signs ++ [.mark .bang], by simp, by simp [signsBefore, length], ?_⟩
    simpa [or_imp, forall_and, Token.isSign] using all
  | minus outer =>
    obtain ⟨earlier, signs, rfl, length, all⟩ := outer.signs
    refine ⟨earlier, signs ++ [.mark .minus], by simp, by simp [signsBefore, length], ?_⟩
    simpa [or_imp, forall_and, Token.isSign] using all
  | _ => exact ⟨_, [], (List.append_nil _).symm, rfl, by simp⟩
termination_by hole.depth
decreasing_by all_goals subst_vars; simp [Hole.depth]

theorem HoleReached.signsBefore_le (reached : HoleReached before first hole)
    (bounded : Bounded opened run before) : signsBefore hole ≤ run := by
  obtain ⟨earlier, signs, rfl, length, all⟩ := reached.signs
  rw [← length]
  exact bounded.length_le (List.suffix_append earlier signs).isInfix all

/-- The expressions around a hole are those around its innermost bracket, then those whose operators
bind ever tighter, then one for each sign. -/
def Shallow (run : Nat) (before : List Token) (hole : Hole) : Prop :=
  (hole.depth : Int) ≤ balance before * (run + 5) + min hole.level 5 + signsBefore hole

namespace Shallow

variable {run opened : Nat} {before tokens : List Token} {hole : Hole} {first : Token}

theorem depth_le (shallow : Shallow run before hole) (reached : HoleReached before first hole)
    (bounded : Bounded opened run before) :
    (hole.depth : Int) ≤ (balance before + 1) * (run + 5) := by
  have few := reached.signsBefore_le bounded
  unfold Shallow at shallow
  rw [Int.add_mul]
  omega

theorem stated {site : Site} (around : (site.depth : Int) ≤ balance before * (run + 5))
    (same : balance tokens = balance before) (depth : hole.depth = site.depth + 1)
    (level : hole.level = 1) : Shallow run tokens hole := by
  unfold Shallow
  rw [same, depth, level]
  omega

theorem bracket {inner : Hole} (shallow : Shallow run before hole)
    (reached : HoleReached before first hole) (bounded : Bounded opened run before)
    (one : balance tokens = balance before + 1) (depth : inner.depth = hole.depth + 1)
    (level : inner.level = 1) : Shallow run tokens inner := by
  have outer := shallow.depth_le reached bounded
  unfold Shallow
  rw [one, depth, level]
  omega

theorem signed (shallow : Shallow run before hole) (op : UnaryOp)
    (same : balance tokens = balance before) : Shallow run tokens (.operand hole op) := by
  unfold Shallow at shallow ⊢
  simp only [same, Hole.depth, Hole.level, signsBefore]
  omega

/-- An operator that binds tighter than what stands before the hole; that is no sign then. -/
theorem tighter (shallow : Shallow run before hole) (left : Node)
    (tight : hole.level < binaryLevel op) (same : balance tokens = balance before) :
    Shallow run tokens (.right hole left op) := by
  have bound : binaryLevel op ≤ 5 := by cases op <;> simp [binaryLevel]
  have unsigned : signsBefore hole = 0 := by
    cases hole with
    | operand hole sign =>
      simp only [Hole.level] at tight
      omega
    | _ => rfl
  unfold Shallow at shallow ⊢
  simp only [same, Hole.depth, Hole.level, signsBefore]
  omega

end Shallow

mutual

theorem SiteReached.depth_le (reached : SiteReached before site)
    (bounded : Bounded opened run before) : (site.depth : Int) ≤ balance before * (run + 5) := by
  cases reached with
  | program => simp [Site.depth]
  | thenBranch outer condition =>
    have around := (outer.shallow bounded.left).depth_le outer bounded.left
    simpa [Site.depth, condition.balance_eq, opening] using around
  | elseBranch outer condition consequence =>
    have around := (outer.shallow bounded.left).depth_le outer bounded.left
    simpa [Site.depth, condition.balance_eq, consequence.balance_eq, opening] using around
  | body outer params =>
    have around := (outer.shallow bounded.left).depth_le outer bounded.left
    simpa [Site.depth, params.balance_eq, opening] using around
termination_by 2 * site.depth + 1
decreasing_by all_goals subst_vars; simp [Site.depth]

/-- Every hole is shallow, by way of the places around it. -/
theorem HoleReached.shallow (reached : HoleReached before first hole)
    (bounded : Bounded opened run before) : Shallow run before hole := by
  cases reached with
  | letValue reached fits =>
    exact .stated (reached.depth_le bounded.left) (by simp [fits.whole.balance_eq, opening]) rfl rfl
  | returnValue reached fits =>
    exact .stated (reached.depth_le bounded.left) (by simp [fits.whole.balance_eq, opening]) rfl rfl
  | statement reached fits =>
    exact .stated (reached.depth_le bounded.left) (by simp [fits.whole.balance_eq]) rfl rfl
  | bang outer => exact (outer.shallow bounded.left).signed .bang (by simp [opening])
  | minus outer => exact (outer.shallow bounded.left).signed .minus (by simp [opening])
  | right outer left written takes =>
    refine (outer.shallow bounded.left).tighter _ (level_lt_operator takes written) ?_
    have spelled := left.balance_eq
    simp only [Token.balance_append, Token.balance_cons, Token.balance_nil,
      opening_operator written] at spelled ⊢
    omega
  | group outer =>
    exact (outer.shallow bounded.left).bracket outer bounded.left (by simp [opening]) rfl rfl
  | condition outer =>
    exact (outer.shallow bounded.left).bracket outer bounded.left (by simp [opening]) rfl rfl
  | element outer leads =>
    exact (outer.shallow bounded.left).bracket outer bounded.left
      (by simp [opening, leads.balance_items]) rfl rfl
  | argument outer callee leads =>
    refine (outer.shallow bounded.left).bracket outer bounded.left ?_ rfl rfl
    have spelled := callee.balance_eq
    simp only [Token.balance_append, Token.balance_cons, opening, leads.balance_items] at spelled ⊢
    omega
  | key outer leads =>
    exact (outer.shallow bounded.left).bracket outer bounded.left
      (by simp [opening, leads.balance_eq .noEntries]) rfl rfl
  | value outer leads key =>
    exact (outer.shallow bounded.left).bracket outer bounded.left
      (by simp [opening, leads.balance_eq .noEntries, key.balance_eq]) rfl rfl
  | position outer left =>
    refine (outer.shallow bounded.left).bracket outer bounded.left ?_ rfl rfl
    have spelled := left.balance_eq
    simp only [Token.balance_append, Token.balance_cons, Token.balance_nil, opening] at spelled ⊢
    omega
termination_by 2 * hole.depth
decreasing_by all_goals subst_vars; simp only [Hole.depth]; omega

end

section Depth

variable {opened run limit : Nat} {tokens before : List Token} {state : State}

theorem depth_le_of_balance {depth : Nat} {balance : Int}
    (within : (depth : Int) ≤ balance * (run + 5)) (most : balance ≤ opened) :
    depth ≤ opened * (run + 5) := by
  have wide : (0 : Int) ≤ run + 5 := by omega
  have bound := Int.le_trans within (Int.mul_le_mul_of_nonneg_right most wide)
  exact_mod_cast bound

theorem SiteReached.depth_lt (reached : SiteReached before site)
    (bounded : Bounded opened run before) : site.depth + 1 ≤ (opened + 1) * (run + 5) := by
  have around := depth_le_of_balance (reached.depth_le bounded)
    (bounded.balance_le (List.prefix_refl before))
  rw [Nat.add_mul]
  omega

theorem HoleReached.depth_le (reached : HoleReached before first hole)
    (bounded : Bounded opened run before) : hole.depth ≤ (opened + 1) * (run + 5) := by
  have most := bounded.balance_le (List.prefix_refl before)
  exact depth_le_of_balance ((reached.shallow bounded).depth_le reached bounded) (by omega)

/-- A hole outside of the innermost bracket leaves room for what the bracket holds. -/
theorem HoleReached.depth_lt (reached : HoleReached before first hole)
    (bounded : Bounded opened run (before ++ tokens)) (one : balance tokens = 1) :
    hole.depth + 1 ≤ (opened + 1) * (run + 5) := by
  have most := bounded.balance_le (List.prefix_refl (before ++ tokens))
  rw [Token.balance_append, one] at most
  have around := depth_le_of_balance
    ((reached.shallow bounded.left).depth_le reached bounded.left) most
  rw [Nat.add_mul]
  omega

/-- The depth of a reader is bounded by the brackets and signs that it has read. -/
theorem Reached.depth_le (reached : Reached tokens state) (bounded : Bounded opened run tokens) :
    state.depth ≤ (opened + 1) * (run + 5) := by
  cases reached with
  | statement site leads => exact site.depth_lt bounded.left
  | letName site fits => exact site.depth_lt bounded.left
  | letAssign site fits => exact site.depth_lt bounded.left
  | operand reached => exact (reached .eof).depth_le bounded
  | firstElement outer => exact outer.depth_lt bounded rfl
  | firstArgument outer callee =>
    have spelled := callee.balance_eq
    refine outer.depth_lt bounded ?_
    simp only [Token.balance_append, Token.balance_cons, Token.balance_nil, opening] at spelled ⊢
    omega
  | hashEntry outer leads =>
    exact outer.depth_lt bounded (by simp [opening, leads.balance_eq .noEntries])
  | finished spelled => exact Nat.zero_le _
  | operator outer spelled => exact outer.depth_le bounded.left
  | ifOpen outer => exact outer.depth_le bounded.left
  | thenOpen outer condition => exact outer.depth_le bounded.left
  | thenDone outer condition consequence => exact outer.depth_le bounded.left
  | elseOpen outer condition consequence => exact outer.depth_le bounded.left
  | fnOpen outer => exact outer.depth_le bounded.left
  | firstParam outer => exact outer.depth_le bounded.left
  | nextParam outer leads => exact outer.depth_le bounded.left
  | paramDone outer whole leads => exact outer.depth_le bounded.left
  | bodyOpen outer params => exact outer.depth_le bounded.left

/-- A limit as high as the bound cuts nothing off: an expression that would be too deep for it is
not reached under a higher limit either. -/
theorem Reached.feedAll_ne_overflow (reached : Reached before state)
    (bounded : Bounded opened run (before ++ tokens)) (room : (opened + 1) * (run + 5) ≤ limit) :
    state.feedAll limit tokens ≠ .error .overflow := by
  induction tokens generalizing before state with
  | nil => exact nofun
  | cons token tokens ih =>
    rw [List.append_cons] at bounded
    cases fed : state.feed limit token with
    | ok next =>
      rw [feedAll_cons fed]
      exact ih (reached.feed fed) bounded
    | error reason =>
      rintro stopped
      obtain rfl : reason = .overflow := by
        simp only [State.feedAll, List.foldlM_cons, fed] at stopped
        cases stopped
        rfl
      have metered := feed_metered (Nat.le_succ limit) state token
      rw [fed] at metered
      have shallow := reached.depth_le bounded.left.left
      obtain ⟨hole, wider, deep⟩ :=
        metered.opens_deep (Nat.le_trans shallow room) (Nat.lt_succ_self limit)
      have opened : hole.depth ≤ (opened + 1) * (run + 5) :=
        (reached.feed wider).depth_le bounded.left
      omega

end Depth

end Grammar

open Parse Grammar

/-- Reading nests as deep as brackets do and not as far as a text goes on. With `d` brackets open at
most and `p` signs in a row at most, no more than `(d + 1) * (p + 5)` expressions ever stand open, so
that a limit as high as that never cuts off: the text is a program, or a token is unexpected, or a
token begins no expression. -/
theorem parse_nesting_follows_brackets (limit : Nat) (source : String) :
    let tokens := Token.ofSource source
    let bound := (Token.deepest tokens + 1) * (Token.longestRun tokens + 5)
    (∀ before after state, tokens = before ++ after →
      State.start.feedAll limit before = .ok state → state.depth ≤ bound) ∧
    (bound ≤ limit →
      (∃ statements, Node.parse limit source = .ok (.program statements)) ∨
      (∃ expected actual, Node.parse limit source = .error (.unexpected expected actual)) ∨
      ∃ kind, Node.parse limit source = .error (.noOperand kind)) := by
  intro tokens bound
  have bounded := Token.bounded_deepest tokens
  have begun : Reached [] State.start := .statement .program .nil
  constructor
  · intro before after state split fed
    have reached : Reached before state := begun.feedAll fed
    have whole : Token.Bounded (Token.deepest tokens) (Token.longestRun tokens)
        (before ++ after) := by
      rw [← split]
      exact bounded
    exact reached.depth_le whole.left
  · intro room
    have finishes : Node.ofTokens limit tokens ≠ .error .overflow := fun stopped =>
      begun.feedAll_ne_overflow bounded room (feedAll_overflow_of_ofTokens stopped)
    unfold Node.parse
    cases read : Node.ofTokens limit tokens with
    | ok tree =>
      obtain ⟨statements, rfl, -⟩ := feedAll_of_ofTokens read
      exact .inl ⟨statements, rfl⟩
    | error reason =>
      cases reason with
      | unexpected expected actual => exact .inr (.inl ⟨expected, actual, rfl⟩)
      | noOperand kind => exact .inr (.inr ⟨kind, rfl⟩)
      | overflow => exact absurd read finishes

/-- Six expressions stand open before the last operand, and six is the bound. -/
theorem parse_nesting_follows_brackets_tight :
    (Token.deepest (Token.ofSource "a == b < c + d * !e") + 1) *
        (Token.longestRun (Token.ofSource "a == b < c + d * !e") + 5) = 6 ∧
    ((∃ statements, Node.parse 6 "a == b < c + d * !e" = .ok (.program statements)) ∨
      (∃ expected actual,
        Node.parse 6 "a == b < c + d * !e" = .error (.unexpected expected actual)) ∨
      ∃ kind, Node.parse 6 "a == b < c + d * !e" = .error (.noOperand kind)) ∧
    Node.parse 5 "a == b < c + d * !e" = .error .overflow := by
  have six : (Token.deepest (Token.ofSource "a == b < c + d * !e") + 1) *
      (Token.longestRun (Token.ofSource "a == b < c + d * !e") + 5) = 6 := by
    cbv
  refine ⟨six, (parse_nesting_follows_brackets 6 _).2 (Nat.le_of_eq six), ?_⟩
  cbv

end Capuchin
