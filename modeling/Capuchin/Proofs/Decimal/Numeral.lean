import Capuchin.Proofs.Decimal

namespace Capuchin.Decimal

/-- The positional value of digits: each counts tenfold for every digit after it. -/
def positional : List Char → Nat
  | [] => 0
  | digit :: rest => (digit.toNat - '0'.toNat) * Nat.pow 10 rest.length + positional rest

/-- Digits that write a number without needless zeros. -/
structure IsNumeral (n : Nat) (digits : List Char) : Prop where
  decimal : ∀ c ∈ digits, c.isDigit = true
  nonempty : digits ≠ []
  bare : digits.head? = some '0' → digits = ['0']
  value : positional digits = n

/-- The same for an integer, with a minus sign in front of negative numbers. -/
def IsSigned (n : Int) (text : String) : Prop :=
  ∃ digits, IsNumeral n.natAbs digits ∧ text.toList = if n < 0 then '-' :: digits else digits

/-- The digits without the zeros in front of them; one zero stays where nothing else would. -/
def significant (digits : List Char) : List Char :=
  match digits.dropWhile (· = '0') with
  | [] => ['0']
  | rest => rest

variable {n : Nat} {digits rest : List Char} {c : Char}

theorem positional_eq (digits : List Char) :
    positional digits = Nat.ofDigitChars 10 digits 0 := by
  induction digits with
  | nil => rfl
  | cons digit rest ih =>
    rw [positional, ih, Nat.ofDigitChars_cons, Nat.mul_zero, Nat.zero_add, Nat.mul_comm,
      Nat.pow_eq, ← Nat.ofDigitChars_eq_ofDigitChars_zero]

theorem read_eq_positional (text : String) : read text = positional text.toList := by
  rw [read, readFrom_eq, positional_eq]

theorem positional_dropWhile (digits : List Char) :
    positional (digits.dropWhile (· = '0')) = positional digits := by
  induction digits with
  | nil => rfl
  | cons digit rest ih =>
    by_cases zero : digit = '0'
    · subst zero
      rw [List.dropWhile_cons_of_pos (by simp), ih, positional, Nat.sub_self, Nat.zero_mul,
        Nat.zero_add]
    · rw [List.dropWhile_cons_of_neg (by simpa using zero)]

theorem exists_digitChar (digit : c.isDigit = true) : ∃ value < 10, c = value.digitChar := by
  have bounds : 48 ≤ c.toNat ∧ c.toNat ≤ 57 := Char.isDigit_iff_toNat.mp digit
  have small : c.toNat - 48 < 10 := by omega
  refine ⟨c.toNat - 48, small, Char.toNat_inj.mp ?_⟩
  rw [Nat.toNat_digitChar_of_lt_ten small]
  omega

/-- Digits read after a positive number stand after its canonical digits. -/
theorem toDigits_append (n : Nat) (positive : 0 < n) (decimal : ∀ c ∈ rest, c.isDigit = true) :
    Nat.toDigits 10 n ++ rest = Nat.toDigits 10 (Nat.ofDigitChars 10 rest n) := by
  induction rest generalizing n with
  | nil => rw [List.append_nil, Nat.ofDigitChars_nil]
  | cons c rest ih =>
    have others : ∀ c ∈ rest, c.isDigit = true := fun c member => decimal c (by simp [member])
    obtain ⟨value, small, rfl⟩ := exists_digitChar (decimal c (by simp))
    have longer := Nat.toDigits_append_toDigits (by decide : 1 < 10) positive small
    rw [Nat.toDigits_of_lt_base small] at longer
    rw [Nat.ofDigitChars_cons_digitChar_of_lt_ten small, ← ih _ (by omega) others, ← longer,
      List.append_assoc, List.singleton_append]

/-- The canonical digits of a positive number do not begin with zero. -/
theorem head?_toDigits_ne (n : Nat) (positive : 0 < n) :
    (Nat.toDigits 10 n).head? ≠ some '0' := by
  induction n using Nat.strongRecOn with
  | ind n ih =>
    rw [Nat.toDigits_eq_if (by decide)]
    split
    · simpa [Nat.digitChar_eq_zero] using Nat.ne_of_gt positive
    · have first := ih (n / 10) (by omega) (by omega)
      cases high : Nat.toDigits 10 (n / 10) with
      | nil => exact absurd high Nat.toDigits_ne_nil
      | cons digit others =>
        rw [high] at first
        exact first

theorem isNumeral_digits (n : Nat) : IsNumeral n (Decimal.digits n) where
  decimal _ := isDigit_of_mem_digits
  nonempty := digits_ne_nil n
  bare first := by
    rw [digits_eq] at first ⊢
    cases Nat.eq_zero_or_pos n with
    | inl zero => rw [zero, Nat.toDigits_zero]
    | inr positive => exact absurd first (head?_toDigits_ne n positive)
  value := by rw [digits_eq, positional_eq, Nat.ofDigitChars_ten_toDigits]

theorem IsNumeral.eq_digits (numeral : IsNumeral n digits) : digits = Decimal.digits n := by
  obtain ⟨decimal, nonempty, bare, rfl⟩ := numeral
  rw [digits_eq]
  cases digits with
  | nil => exact absurd rfl nonempty
  | cons first rest =>
    have others : ∀ c ∈ rest, c.isDigit = true := fun c member => decimal c (by simp [member])
    obtain ⟨value, small, rfl⟩ := exists_digitChar (decimal first (by simp))
    -- Digits are read on as they stand only after a positive number, and a zero stands alone.
    cases Nat.eq_zero_or_pos value with
    | inl zero =>
      subst zero
      rw [bare rfl]
      rfl
    | inr positive =>
      have whole := toDigits_append value positive others
      rw [Nat.toDigits_of_lt_base small, List.singleton_append] at whole
      rw [positional_eq, Nat.ofDigitChars_cons_digitChar_of_lt_ten small, Nat.mul_zero,
        Nat.zero_add, whole]

/-- A number has one numeral, which is written chunk by chunk. -/
theorem isNumeral_iff (n : Nat) (digits : List Char) :
    IsNumeral n digits ↔ digits = Decimal.digits n := by
  constructor
  · exact IsNumeral.eq_digits
  · rintro rfl
    exact isNumeral_digits n

theorem isSigned_iff (n : Int) (text : String) : IsSigned n text ↔ text = write n := by
  simp only [IsSigned, isNumeral_iff, exists_eq_left, ← String.toList_inj]
  cases n with
  | ofNat n =>
    have sign : ¬ Int.ofNat n < 0 := Int.not_lt.mpr (Int.natCast_nonneg n)
    rw [if_neg sign, write, String.toList_ofList]
    rfl
  | negSucc n =>
    rw [if_pos (Int.negSucc_lt_zero n), write, String.toList_ofList]
    rfl

theorem isNumeral_significant (decimal : ∀ c ∈ digits, c.isDigit = true) :
    IsNumeral (positional digits) (significant digits) := by
  have value := positional_dropWhile digits
  have stopped := List.head?_dropWhile_not (· = '0') digits
  have kept := (List.dropWhile_sublist (l := digits) (· = '0')).subset
  unfold significant
  cases left : digits.dropWhile (· = '0') with
  | nil =>
    rw [left] at value
    exact ⟨by simp, by simp, fun _ => rfl, value⟩
  | cons first rest =>
    rw [left] at value stopped kept
    refine ⟨fun c member => decimal c (kept member), by simp, ?_, value⟩
    intro zero
    rw [zero] at stopped
    simp at stopped

/-- Conversion by chunks is plain decimal notation at every length. Digits are read at their
positional value, whatever zeros stand in front; an integer is written by its one numeral; a number
written reads back, and digits read are written without the zeros in front of them. -/
theorem chunks_are_plain_decimal (text : String) (decimal : ∀ c ∈ text.toList, c.isDigit = true) :
    read text = positional text.toList ∧
    (∀ (n : Int) (numeral : String), IsSigned n numeral ↔ numeral = write n) ∧
    (∀ n : Nat, read (write n) = n) ∧
    write (read text) = String.ofList (significant text.toList) := by
  refine ⟨read_eq_positional text, isSigned_iff, read_write, ?_⟩
  rw [(isNumeral_significant decimal).eq_digits, read_eq_positional]
  rfl

/-- Digits behind a whole chunk of zeros. -/
theorem chunks_are_plain_decimal_zeros :
    let text := String.ofList (List.replicate chunk '0' ++ ['7', '0'])
    (∀ c ∈ text.toList, c.isDigit = true) ∧ read text = 70 ∧ write (read text) = "70" := by
  intro text
  have zero : ∀ c ∈ List.replicate chunk '0', c = '0' := fun c => List.eq_of_mem_replicate
  have decimal : ∀ c ∈ text.toList, c.isDigit = true := by
    intro c member
    rw [String.toList_ofList, List.mem_append] at member
    rcases member with front | back
    · rw [zero c front]
      rfl
    · have digits : ['7', '0'].all Char.isDigit = true := rfl
      exact List.all_eq_true.mp digits c back
  obtain ⟨value, _, _, written⟩ := chunks_are_plain_decimal text decimal
  refine ⟨decimal, ?_, ?_⟩
  · rw [value, positional_eq, String.toList_ofList, Nat.ofDigitChars_append,
      Nat.ofDigitChars_replicate_zero, Nat.mul_zero]
    rfl
  · rw [written, String.toList_ofList, significant,
      List.dropWhile_append_of_pos fun c front => decide_eq_true (zero c front)]
    rfl

end Capuchin.Decimal
