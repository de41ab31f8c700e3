import Mathlib.Data.List.Basic
import ShareBike.Lib.Bytes

/-!
# Formats

What the `printf` functions make of a format with `%s` and `%d`.
-/
namespace ShareBike.Lib

/-- The bytes of a string literal. -/
def utf8 (s : String) : List UInt8 := s.toUTF8.data.toList

/-- An argument of a format: a string, or a number that is not negative. -/
inductive Arg
  | str (s : List UInt8)
  | int (n : ℕ)
  deriving DecidableEq

/-- The digits that `%d` prints. -/
def decimal (n : ℕ) : List UInt8 := (Nat.toDigits 10 n).map fun c => UInt8.ofNat c.toNat

/-- The number that digits stand for. -/
def atoi (digits : List UInt8) : ℕ := digits.foldl (fun n b => 10 * n + (b.toNat - 48)) 0

/-- `%s` and `%d` print the next argument, any other byte prints itself. -/
def format : List UInt8 → List Arg → List UInt8
  | 37 :: 115 :: fmt, .str s :: args => s ++ format fmt args
  | 37 :: 100 :: fmt, .int n :: args => decimal n ++ format fmt args
  | b :: fmt, args => b :: format fmt args
  | [], _ => []

variable {pre : List UInt8} {n : ℕ}

lemma format_cons {b : UInt8} (hb : b ≠ 37) (fmt : List UInt8) (args : List Arg) :
    format (b :: fmt) args = b :: format fmt args :=
  format.eq_3 args b fmt (fun _ _ _ _ h _ => hb h) (fun _ _ _ _ h _ => hb h)

lemma format_str (s fmt : List UInt8) (args : List Arg) :
    format (37 :: 115 :: fmt) (.str s :: args) = s ++ format fmt args := rfl

lemma format_int (n : ℕ) (fmt : List UInt8) (args : List Arg) :
    format (37 :: 100 :: fmt) (.int n :: args) = decimal n ++ format fmt args := rfl

/-- The text before the first `%`. -/
lemma format_append (hpre : 37 ∉ pre) (fmt : List UInt8) (args : List Arg) :
    format (pre ++ fmt) args = pre ++ format fmt args := by
  induction pre with
  | nil => rfl
  | cons b pre ih =>
    have hb : b ≠ 37 := fun h => hpre (h ▸ List.mem_cons_self)
    have hrec := ih fun h => hpre (List.mem_cons_of_mem b h)
    rw [List.cons_append, format_cons hb, hrec, List.cons_append]

/-- A text without `%`. -/
lemma format_text (hpre : 37 ∉ pre) (args : List Arg) : format pre args = pre := by
  have h := format_append hpre [] args
  rwa [List.append_nil, format.eq_4, List.append_nil] at h

lemma toNat_of_isDigit {c : Char} (h : c.isDigit = true) :
    48 ≤ c.toNat ∧ c.toNat ≤ 57 ∧ (UInt8.ofNat c.toNat).toNat = c.toNat := by
  rw [Char.isDigit, Bool.and_eq_true, decide_eq_true_eq, decide_eq_true_eq] at h
  obtain ⟨hlow, hhigh⟩ := h
  have hlow' : 48 ≤ c.toNat := hlow
  have hhigh' : c.toNat ≤ 57 := hhigh
  refine ⟨hlow', hhigh', ?_⟩
  rw [UInt8.toNat_ofNat']
  omega

/-- The digits stand for the number. -/
lemma atoi_decimal (n : ℕ) : atoi (decimal n) = n := by
  have hfold : atoi (decimal n) = Nat.ofDigitChars 10 (Nat.toDigits 10 n) 0 := by
    rw [atoi, decimal, List.foldl_map, Nat.ofDigitChars_eq_foldl]
    refine List.foldl_ext _ _ _ fun m c hc => ?_
    rw [(toNat_of_isDigit (Nat.isDigit_of_mem_toDigits (by decide) le_rfl hc)).2.2]
    rfl
  rw [hfold, Nat.ofDigitChars_ten_toDigits]

lemma length_decimal_le {k : ℕ} (hk : 0 < k) (h : n < 10 ^ k) : (decimal n).length ≤ k := by
  rw [decimal, List.length_map]
  exact (Nat.length_toDigits_le_iff (by decide) hk).mpr h

lemma digit_of_mem_decimal {b : UInt8} (h : b ∈ decimal n) : 48 ≤ b ∧ b ≤ 57 := by
  obtain ⟨c, hc, rfl⟩ := List.mem_map.mp h
  obtain ⟨hlow, hhigh, heq⟩ :=
    toNat_of_isDigit (Nat.isDigit_of_mem_toDigits (by decide) le_rfl hc)
  rw [UInt8.le_iff_toNat_le, UInt8.le_iff_toNat_le, heq]
  exact ⟨hlow, hhigh⟩

lemma nul_notMem_decimal (n : ℕ) : 0 ∉ decimal n :=
  fun h => absurd (digit_of_mem_decimal h).1 (by decide)

end ShareBike.Lib
