import Capuchin.Proofs.Decimal
import Capuchin.Proofs.Evaluate.Delivery
import Mathlib

namespace Capuchin

/-- What the quotient leaves of the dividend is less than the divisor and has the sign of the
dividend, if it is not zero. -/
def IsQuotient (dividend divisor quotient : Int) : Prop :=
  ∃ remainder, dividend = quotient * divisor + remainder ∧ remainder.natAbs < divisor.natAbs ∧
    (remainder = 0 ∨ remainder.sign = dividend.sign)

theorem isQuotient_tdiv (dividend : Int) (nonzero : divisor ≠ 0) :
    IsQuotient dividend divisor (dividend.tdiv divisor) := by
  refine ⟨dividend.tmod divisor, ?_, ?_, ?_⟩
  · rw [Int.mul_comm, Int.mul_tdiv_add_tmod]
  · rw [Int.natAbs_tmod]
    exact Nat.mod_lt _ (Int.natAbs_pos.mpr nonzero)
  · have sign := Int.sign_tmod dividend divisor
    split at sign
    · exact .inl (Int.sign_eq_zero_iff_zero.mp sign)
    · exact .inr sign

/-- Two remainders of one dividend differ by less than the divisor, so there is one quotient. -/
theorem IsQuotient.unique (one : IsQuotient dividend divisor quotient)
    (two : IsQuotient dividend divisor other) : quotient = other := by
  obtain ⟨rest, whole, small, sign⟩ := one
  obtain ⟨rest', whole', small', sign'⟩ := two
  have difference : divisor * (quotient - other) = rest' - rest := by linarith
  have close : (rest' - rest).natAbs < divisor.natAbs := by
    rcases Int.lt_trichotomy dividend 0 with negative | rfl | positive
    · rw [Int.sign_eq_neg_one_of_neg negative, Int.sign_eq_neg_one_iff_neg] at sign sign'
      omega
    · rw [Int.sign_zero, Int.sign_eq_zero_iff_zero] at sign sign'
      omega
    · rw [Int.sign_eq_one_of_pos positive, Int.sign_eq_one_iff_pos] at sign sign'
      omega
  have same : rest' - rest = 0 :=
    Int.eq_zero_of_dvd_of_natAbs_lt_natAbs (Dvd.intro _ difference) close
  have nonzero : divisor ≠ 0 := by
    rintro rfl
    omega
  rw [same, mul_eq_zero] at difference
  have equal := difference.resolve_left nonzero
  omega

theorem IsQuotient.truncated (cut : IsQuotient dividend divisor quotient) (nonzero : divisor ≠ 0) :
    truncatedQuotient? dividend divisor = some quotient := by
  rw [truncatedQuotient?, if_neg nonzero, cut.unique (isQuotient_tdiv dividend nonzero)]

namespace Node

/-- An expression of numerals, negation and the four operations. -/
inductive Arithmetic : Node → Prop where
  | int (value : Int) : Arithmetic (.int value)
  | negation (operand : Arithmetic right) : Arithmetic (.unary .minus right)
  | operation (known : op ∈ [.plus, .minus, .times, .divide]) (first : Arithmetic left)
      (second : Arithmetic right) : Arithmetic (.binary left op right)

/-- The exact value of an expression; where a divisor is zero there is none. -/
inductive Denotes : Node → Int → Prop where
  | int : Denotes (.int value) value
  | negation (operand : Denotes right value) : Denotes (.unary .minus right) (-value)
  | sum (first : Denotes left one) (second : Denotes right two) :
      Denotes (.binary left .plus right) (one + two)
  | difference (first : Denotes left one) (second : Denotes right two) :
      Denotes (.binary left .minus right) (one - two)
  | product (first : Denotes left one) (second : Denotes right two) :
      Denotes (.binary left .times right) (one * two)
  | quotient (first : Denotes left one) (second : Denotes right two) (nonzero : two ≠ 0)
      (cut : IsQuotient one two value) : Denotes (.binary left .divide right) value

/-- The first division by zero in an expression has this dividend. -/
inductive DividesByZero : Node → Int → Prop where
  | negation (operand : DividesByZero right dividend) : DividesByZero (.unary .minus right) dividend
  | left (first : DividesByZero left dividend) : DividesByZero (.binary left op right) dividend
  | right (first : Denotes left value) (second : DividesByZero right dividend) :
      DividesByZero (.binary left op right) dividend
  | here (first : Denotes left dividend) (second : Denotes right 0) :
      DividesByZero (.binary left .divide right) dividend

def height : Node → Nat
  | .unary _ right => right.height + 1
  | .binary left _ right => max left.height right.height + 1
  | _ => 1

theorem Arithmetic.denotes_or_dividesByZero {tree : Node} (arithmetic : tree.Arithmetic) :
    (∃ value, tree.Denotes value) ∨ ∃ dividend, tree.DividesByZero dividend := by
  induction arithmetic with
  | int value => exact .inl ⟨value, .int⟩
  | negation _ operand =>
    rcases operand with ⟨value, denotes⟩ | ⟨dividend, divides⟩
    · exact .inl ⟨-value, .negation denotes⟩
    · exact .inr ⟨dividend, .negation divides⟩
  | operation known _ _ first second =>
    rcases first with ⟨one, first⟩ | ⟨dividend, divides⟩
    · rcases second with ⟨two, second⟩ | ⟨dividend, divides⟩
      · simp only [List.mem_cons, List.not_mem_nil, or_false] at known
        rcases known with rfl | rfl | rfl | rfl
        · exact .inl ⟨_, .sum first second⟩
        · exact .inl ⟨_, .difference first second⟩
        · exact .inl ⟨_, .product first second⟩
        · by_cases zero : two = 0
          · subst zero
            exact .inr ⟨one, .here first second⟩
          · exact .inl ⟨_, .quotient first second zero (isQuotient_tdiv one zero)⟩
      · exact .inr ⟨dividend, .right first divides⟩
    · exact .inr ⟨dividend, .left divides⟩

end Node

def zeroDivision (dividend : Int) : Value :=
  .error .divisionByZero ("Division by zero: " ++ toString dividend ++ " / 0")

section Evaluation

variable {σ : Type} {scope : ScopeId} {tree : Node}

/-- A number is displayed under every limit but zero. -/
theorem settle_divisionByZero (dividend : Int) (room : 0 < limit) :
    Complaint.settle limit (.error (.divisionByZero dividend 0)) = .ok (zeroDivision dividend) := by
  obtain ⟨limit, rfl⟩ : ∃ other, limit = other + 1 := ⟨limit - 1, by omega⟩
  simp only [Complaint.settle, Complaint.toValue, Complaint.message, Complaint.operation,
    Value.inspect, Decimal.write_eq_toString, Complaint.kind, zeroDivision, bind, Except.bind, pure,
    Except.pure, String.append_assoc]
  rfl

theorem Node.height_pos (tree : Node) : 0 < tree.height := by
  cases tree <;> simp [height]

theorem gives_denotes (denotes : tree.Denotes value) (heap : Heap) :
    Gives σ scope tree tree.height heap (.int value) heap := by
  -- Both operands are evaluated as high as the higher one of them.
  have operands {left right : Node} {one two : Int}
      (first : Gives σ scope left left.height heap (.int one) heap)
      (second : Gives σ scope right right.height heap (.int two) heap) :=
    And.intro (first.weaken (Nat.le_max_left left.height right.height))
      (second.weaken (Nat.le_max_right left.height right.height))
  induction denotes with
  | int => exact .int _ heap
  | negation _ operand => exact .unary operand rfl rfl
  | sum _ _ first second =>
    obtain ⟨first, second⟩ := operands first second
    exact .binary first rfl second rfl fun _ _ => rfl
  | difference _ _ first second =>
    obtain ⟨first, second⟩ := operands first second
    exact .binary first rfl second rfl fun _ _ => rfl
  | product _ _ first second =>
    obtain ⟨first, second⟩ := operands first second
    exact .binary first rfl second rfl fun _ _ => rfl
  | quotient _ _ nonzero cut first second =>
    obtain ⟨first, second⟩ := operands first second
    refine .binary first rfl second rfl fun _ _ => ?_
    rw [Value.applyBinary, Value.applyInt, cut.truncated nonzero]
    rfl

theorem gives_dividesByZero (divides : tree.DividesByZero dividend) (heap : Heap) :
    Gives σ scope tree tree.height heap (zeroDivision dividend) heap := by
  induction divides with
  | negation _ operand => exact .eval operand.andThen_error
  | left _ first => exact .eval (first.weaken (Nat.le_max_left _ _)).andThen_error
  | right first _ second =>
    refine .eval (((gives_denotes first heap).weaken (Nat.le_max_left _ _)).andThen rfl ?_)
    exact (second.weaken (Nat.le_max_right _ _)).andThen_error
  | @here left dividend right first second =>
    have positive := left.height_pos
    refine .binary ((gives_denotes first heap).weaken (Nat.le_max_left _ _)) rfl
      ((gives_denotes second heap).weaken (Nat.le_max_right _ _)) rfl fun limit room => ?_
    exact settle_divisionByZero dividend (by omega)

end Evaluation

/-- An arithmetic expression is evaluated to one result under every limit that is not below its
height, and under lower limits it can only overflow. If the expression has a value, then that is the
result; if it has a first division by zero, then the result is the error about that division, which
shows both operands in decimal notation; and it has the one or the other. -/
theorem arithmetic_is_exact {tree : Node} (arithmetic : tree.Arithmetic) (scope : ScopeId)
    (heap : Heap) (notes : σ) :
    ∃ result : Value,
      (∀ limit, tree.height ≤ limit →
        (tree.eval .silent limit scope).ending ⟨heap, notes⟩ = (.ok result, ⟨heap, notes⟩)) ∧
      (∀ limit, Cut .overflow ((tree.eval .silent limit scope).ending ⟨heap, notes⟩).1
        (.ok result)) ∧
      (∀ value, tree.Denotes value → result = .int value) ∧
      (∀ dividend, tree.DividesByZero dividend →
        result = .error .divisionByZero ("Division by zero: " ++ toString dividend ++ " / 0")) ∧
      ((∃ value, tree.Denotes value) ∨ ∃ dividend, tree.DividesByZero dividend) := by
  have either := arithmetic.denotes_or_dividesByZero
  obtain ⟨result, gives⟩ : ∃ result, Gives σ scope tree tree.height heap result heap := by
    rcases either with ⟨value, denotes⟩ | ⟨dividend, divides⟩
    · exact ⟨_, gives_denotes denotes heap⟩
    · exact ⟨_, gives_dividesByZero divides heap⟩
  refine ⟨result, fun limit room => gives.ending room notes, fun limit => gives.cut limit notes,
    fun value denotes => ?_, fun dividend divides => ?_, either⟩
  · exact gives.unique (gives_denotes denotes heap) notes
  · exact gives.unique (gives_dividesByZero divides heap) notes

/-- `-7 / 2` is cut off toward zero, and of two divisions by zero the left one is reported. -/
theorem arithmetic_is_exact_divisions :
    (Node.binary (.unary .minus (.int 7)) .divide (.int 2)).Arithmetic ∧
    (Node.binary (.binary (.int 5) .divide (.int 0)) .plus
      (.binary (.int 6) .divide (.int 0))).Arithmetic ∧
    ((Node.eval Monitor.silent 3 (.binary (.unary .minus (.int 7)) .divide (.int 2)) 0).ending
      ⟨⟨#[]⟩, ()⟩).1 = .ok (.int (-3)) ∧
    ((Node.eval Monitor.silent 3 (.binary (.binary (.int 5) .divide (.int 0)) .plus
      (.binary (.int 6) .divide (.int 0))) 0).ending ⟨⟨#[]⟩, ()⟩).1 =
        .ok (.error .divisionByZero "Division by zero: 5 / 0") := by
  have negative : (Node.binary (.unary .minus (.int 7)) .divide (.int 2)).Arithmetic :=
    .operation (by simp) (.negation (.int 7)) (.int 2)
  have twice : (Node.binary (.binary (.int 5) .divide (.int 0)) .plus
      (.binary (.int 6) .divide (.int 0))).Arithmetic :=
    .operation (by simp) (.operation (by simp) (.int 5) (.int 0))
      (.operation (by simp) (.int 6) (.int 0))
  refine ⟨negative, twice, ?_, ?_⟩
  · obtain ⟨result, ended, _, value, _⟩ := arithmetic_is_exact negative 0 ⟨#[]⟩ ()
    have denotes : (Node.binary (.unary .minus (.int 7)) .divide (.int 2)).Denotes (-3) :=
      .quotient (.negation .int) .int (by decide) ⟨-1, by decide, by decide, by decide⟩
    rw [ended 3 (by decide), value _ denotes]
  · obtain ⟨result, ended, _, _, error, _⟩ := arithmetic_is_exact twice 0 ⟨#[]⟩ ()
    rw [ended 3 (by decide), error 5 (.left (.here .int .int))]
    rfl

end Capuchin
