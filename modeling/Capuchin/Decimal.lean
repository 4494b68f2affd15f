/-! Decimal numerals of any length. Plain positional notation is given beside a reader and a
writer that work on chunks of digits, so that arithmetic on the whole number happens once per
chunk and not once per digit. -/

namespace Capuchin.Decimal

/-- Value of a run of digits in plain positional notation. -/
def ofDigits (digits : List Char) : Nat :=
  digits.foldl (fun value digit => value * 10 + (digit.toNat - '0'.toNat)) 0

/-- Digits that are converted at one go. -/
def chunk : Nat := 1000

/-- One more than the largest number that fits a chunk. -/
def base : Nat := Nat.pow 10 chunk

theorem one_lt_base : 1 < base := by
  delta base
  have nonzero : chunk ≠ 0 := by decide
  generalize chunk = width at nonzero ⊢
  exact Nat.one_lt_pow nonzero (by decide)

/-- Read digits from the left, a chunk at a time, after those already worth `value`. -/
def readFrom (value : Nat) (digits : List Char) : Nat :=
  if digits.isEmpty then value
  else
    let first := digits.take chunk
    readFrom (value * Nat.pow 10 first.length + ofDigits first) (digits.drop chunk)
termination_by digits.length
decreasing_by
  rename_i nonempty
  have positive := List.length_pos_iff.mpr fun empty => nonempty (List.isEmpty_iff.mpr empty)
  rw [List.length_drop, chunk]
  omega

/-- The number written by a run of digits; no digits write zero. -/
def read (digits : String) : Nat :=
  readFrom 0 digits.toList

/-- Digits of `n`, filled with zeros on the left to a whole chunk. -/
def padded (n : Nat) : List Char :=
  let digits := Nat.toDigits 10 n
  List.replicate (chunk - digits.length) '0' ++ digits

/-- Digits of `n`, split off from the right a chunk at a time. -/
def digits (n : Nat) : List Char :=
  if n < base then Nat.toDigits 10 n
  else digits (n / base) ++ padded (n % base)
termination_by n
decreasing_by
  exact Nat.div_lt_self (by have := one_lt_base; omega) one_lt_base

/-- The numeral of an integer: a minus sign for negative numbers, no leading zeros. -/
def write : Int → String
  | .ofNat n => String.ofList (digits n)
  | .negSucc n => String.ofList ('-' :: digits (n + 1))

/-- The integer written by digits after an optional minus sign. -/
def readSigned (text : String) : Int :=
  match text.toList with
  | '-' :: rest => -Int.ofNat (readFrom 0 rest)
  | rest => Int.ofNat (readFrom 0 rest)

end Capuchin.Decimal
