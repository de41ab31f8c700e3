import Mathlib.Algebra.Group.Int.Defs
import ShareBike.Lib.Printf

/-!
# Numbers read from a stream

`operator>>` for the types `int` and `size_t`: white space is skipped, then a sign and
the digits are taken. A number that does not fit, or has no digits, fails.
-/
namespace ShareBike.Lib

def isSpace (b : UInt8) : Bool := b ∈ [32, 9, 10, 11, 12, 13]

/-- The sign, the digits and what follows them. -/
def numeral (s : List UInt8) : Bool × List UInt8 × List UInt8 :=
  match s.dropWhile isSpace with
  | 45 :: t => (true, t.takeWhile isDigit, t.dropWhile isDigit)
  | 43 :: t => (false, t.takeWhile isDigit, t.dropWhile isDigit)
  | t => (false, t.takeWhile isDigit, t.dropWhile isDigit)

/-- `s >> i` for an `int`: whether it succeeds, the value of `i` afterwards, and what
follows. -/
def extractInt (s : List UInt8) : Bool × ℤ × List UInt8 :=
  let r := numeral s
  let i : ℤ := if r.1 then -(atoi r.2.1 : ℤ) else atoi r.2.1
  if r.2.1 = [] then (false, 0, r.2.2)
  else if i < -2 ^ 31 then (false, -2 ^ 31, r.2.2)
  else if i ≥ 2 ^ 31 then (false, 2 ^ 31 - 1, r.2.2)
  else (true, i, r.2.2)

/-- `s >> n` for a `size_t`; a negative number is taken modulo its range. -/
def extractSize (s : List UInt8) : Bool × ℕ × List UInt8 :=
  let r := numeral s
  if r.2.1 = [] then (false, 0, r.2.2)
  else if atoi r.2.1 ≥ 2 ^ 64 then (false, 2 ^ 64 - 1, r.2.2)
  else (true, if r.1 then (2 ^ 64 - atoi r.2.1) % 2 ^ 64 else atoi r.2.1, r.2.2)

/-- The text of an integer. -/
def intText (i : ℤ) : List UInt8 := if i < 0 then 45 :: decimal i.natAbs else decimal i.natAbs

variable {s t : List UInt8} {n : ℕ} {i : ℤ}

/-- What follows the digits is a rest of the text. -/
lemma length_numeral_le (s : List UInt8) : (numeral s).2.2.length ≤ s.length := by
  have hspace : (s.dropWhile isSpace).length ≤ s.length := List.length_dropWhile_le ..
  have hdigit : ∀ t : List UInt8, (t.dropWhile isDigit).length ≤ t.length :=
    fun t => List.length_dropWhile_le ..
  unfold numeral
  split <;> rename_i t ht
  · have h := hdigit t
    rw [ht, List.length_cons] at hspace
    exact le_trans h (by omega)
  · have h := hdigit t
    rw [ht, List.length_cons] at hspace
    exact le_trans h (by omega)
  · exact le_trans (hdigit _) hspace

lemma length_extractInt_le (s : List UInt8) : (extractInt s).2.2.length ≤ s.length := by
  have h := length_numeral_le s
  unfold extractInt
  dsimp only
  split_ifs <;> exact h

lemma length_extractSize_le (s : List UInt8) : (extractSize s).2.2.length ≤ s.length := by
  have h := length_numeral_le s
  unfold extractSize
  dsimp only
  split_ifs <;> exact h

end ShareBike.Lib
