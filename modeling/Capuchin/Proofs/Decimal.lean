import Capuchin.Decimal

namespace Capuchin.Decimal

theorem ofDigits_eq (digits : List Char) : ofDigits digits = Nat.ofDigitChars 10 digits 0 := by
  simp only [ofDigits, Nat.ofDigitChars_eq_foldl, Nat.mul_comm]

/-- Reading by chunks is positional notation, continued from the value read before. -/
theorem readFrom_eq (value : Nat) (digits : List Char) :
    readFrom value digits = Nat.ofDigitChars 10 digits value := by
  induction value, digits using readFrom.induct with
  | case1 value digits empty =>
    rw [readFrom, if_pos empty, List.isEmpty_iff.mp empty, Nat.ofDigitChars_nil]
  | case2 value digits nonempty first ih =>
    rw [readFrom, if_neg nonempty]
    calc readFrom (value * Nat.pow 10 first.length + ofDigits first) (digits.drop chunk)
        = Nat.ofDigitChars 10 (digits.drop chunk)
            (Nat.pow 10 first.length * value + Nat.ofDigitChars 10 first 0) := by
          rw [ih, ofDigits_eq, Nat.mul_comm]
      _ = Nat.ofDigitChars 10 (first ++ digits.drop chunk) value := by
          rw [Nat.ofDigitChars_append, Nat.pow_eq, ← Nat.ofDigitChars_eq_ofDigitChars_zero]
      _ = Nat.ofDigitChars 10 digits value := by rw [List.take_append_drop]

/-- Digits of a number split before its last `count + 1` digits. -/
theorem toDigits_split (high : Nat) (positive : 0 < high) (count low : Nat)
    (small : low < Nat.pow 10 (count + 1)) :
    Nat.toDigits 10 (high * Nat.pow 10 (count + 1) + low) = Nat.toDigits 10 high ++
      (List.replicate (count + 1 - (Nat.toDigits 10 low).length) '0' ++ Nat.toDigits 10 low) := by
  induction count generalizing low with
  | zero =>
    have digit : low < 10 := small
    have last := Nat.toDigits_append_toDigits (by decide : 1 < 10) positive digit
    rw [Nat.toDigits_of_lt_base digit] at last ⊢
    simpa [Nat.mul_comm] using last.symm
  | succ count ih =>
    have shift : Nat.pow 10 (count + 1 + 1) = Nat.pow 10 (count + 1) * 10 := rfl
    have smaller : low / 10 < Nat.pow 10 (count + 1) := by
      rw [shift] at small
      omega
    have rest := ih (low / 10) smaller
    have split : high * Nat.pow 10 (count + 1 + 1) + low =
        10 * (high * Nat.pow 10 (count + 1) + low / 10) + low % 10 := by
      rw [shift, ← Nat.mul_assoc]
      omega
    have whole : 0 < high * Nat.pow 10 (count + 1) + low / 10 := by
      have scaled : 0 < high * Nat.pow 10 (count + 1) :=
        Nat.mul_pos positive (Nat.pow_pos (by decide))
      omega
    have digit : low % 10 < 10 := Nat.mod_lt _ (by decide)
    rw [split, ← Nat.toDigits_append_toDigits (by decide) whole digit, rest]
    by_cases single : low < 10
    · have none : low / 10 = 0 := by omega
      have same : low % 10 = low := by omega
      rw [none, same, Nat.toDigits_of_lt_base single]
      simp [← List.replicate_succ']
    · have parts := Nat.toDigits_of_base_le (by decide : 1 < 10) (Nat.le_of_not_lt single)
      rw [parts, Nat.toDigits_of_lt_base digit]
      simp

/-- Chunks of digits join to the canonical digits. -/
theorem digits_eq (n : Nat) : digits n = Nat.toDigits 10 n := by
  rw [digits.eq_def]
  split
  · rfl
  · rename_i large
    obtain ⟨count, width⟩ : ∃ count, chunk = count + 1 := ⟨999, rfl⟩
    have above : 0 < base := Nat.lt_trans Nat.zero_lt_one one_lt_base
    have positive : 0 < n / base := Nat.div_pos (Nat.le_of_not_lt large) above
    have power : Nat.pow 10 (count + 1) = base := by
      delta base
      rw [width]
    have small : n % base < Nat.pow 10 (count + 1) := by
      rw [power]
      exact Nat.mod_lt n above
    have joined := toDigits_split (n / base) positive count (n % base) small
    rw [power, Nat.div_add_mod', ← width] at joined
    rw [digits_eq (n / base), joined, padded]
termination_by n
decreasing_by
  rename_i large
  exact Nat.div_lt_self (by have := one_lt_base; omega) one_lt_base

theorem isDigit_of_mem_digits (member : c ∈ digits n) : c.isDigit = true := by
  rw [digits_eq] at member
  exact Nat.isDigit_of_mem_toDigits (by decide) (by decide) member

theorem digits_ne_nil (n : Nat) : digits n ≠ [] := by
  rw [digits_eq]
  exact Nat.toDigits_ne_nil

theorem write_eq_toString (n : Int) : write n = toString n := by
  rw [Int.toString_eq_repr]
  cases n with
  | ofNat n => rw [write, digits_eq, Int.repr, Nat.repr_eq_ofList_toDigits]
  | negSucc n =>
    rw [write, digits_eq, Int.repr, Nat.repr_eq_ofList_toDigits, String.ofList_cons]
    rfl

theorem read_write (n : Nat) : read (write n) = n := by
  simp only [read, write, String.toList_ofList, readFrom_eq, digits_eq,
    Nat.ofDigitChars_ten_toDigits]

end Capuchin.Decimal
