import Mathlib.Data.Nat.Log
import Mathlib.Tactic.IntervalCases
import ShareBike.RollingFile

/-!
# The names of the log files

The backups have names of their own, and padding the numbers lists the names in the
order of the numbers.
-/
namespace ShareBike.RollingFile
open ShareBike.Lib

variable {this : Appender} {width i j : ℕ}

lemma atoi_zeros (n : ℕ) (digits : List UInt8) :
    atoi (List.replicate n 48 ++ digits) = atoi digits := by
  induction n with
  | zero => rfl
  | succ n ih => exact ih

/-- The number can be read off the padded one. -/
lemma atoi_padded (width i : ℕ) : atoi (padded width i) = i := by
  rw [padded, atoi_zeros, atoi_decimal]

lemma nul_notMem_padded (width i : ℕ) : 0 ∉ padded width i := by
  rw [padded, List.mem_append, List.mem_replicate, not_or]
  exact ⟨by simp, nul_notMem_decimal i⟩

lemma name_zero (h : 0 ∉ this.fileName) : this.name 0 = this.fileName :=
  cstr_eq_self_iff.mpr h

lemma name_succ (h : 0 ∉ this.fileName) (i : ℕ) :
    this.name (i + 1) = this.fileName ++ [46] ++ padded this.maxBackupIndexWidth (i + 1) := by
  rw [Appender.name, Appender.backupText, cstr_append_nul, cstr_eq_self_iff]
  simp [h, nul_notMem_padded]

/-- The log file and its backups have names of their own. -/
lemma name_injective (h : 0 ∉ this.fileName) : Function.Injective this.name := by
  intro i j hij
  cases i with
  | zero =>
    cases j with
    | zero => rfl
    | succ j =>
      rw [name_zero h, name_succ h] at hij
      have hlen := congrArg List.length hij
      simp at hlen
  | succ i =>
    cases j with
    | zero =>
      rw [name_zero h, name_succ h] at hij
      have hlen := congrArg List.length hij
      simp at hlen
    | succ j =>
      rw [name_succ h, name_succ h] at hij
      have hnum := congrArg atoi (List.append_cancel_left hij)
      rwa [atoi_padded, atoi_padded] at hnum

section Order

/-- The last digit decides between numbers that agree in the other digits. -/
lemma append_lt_append {xs ys : List UInt8} {x y : UInt8} (hlen : xs.length = ys.length)
    (h : xs < ys ∨ (xs = ys ∧ x < y)) : xs ++ [x] < ys ++ [y] := by
  rcases h with hlt | ⟨rfl, hxy⟩
  · induction xs generalizing ys with
    | nil =>
      rw [List.length_nil, eq_comm, List.length_eq_zero_iff] at hlen
      rw [hlen] at hlt
      exact absurd hlt (List.lt_irrefl _)
    | cons a xs ih =>
      cases ys with
      | nil => cases hlen
      | cons b ys =>
        rw [List.cons_append, List.cons_append, List.cons_lt_cons_iff]
        rcases List.cons_lt_cons_iff.mp hlt with hab | ⟨rfl, hrest⟩
        · exact .inl hab
        · exact .inr ⟨rfl, ih (Nat.succ.inj hlen) hrest⟩
  · exact List.append_left_lt (List.cons_lt_cons_iff.mpr (.inl hxy))

/-- The digit `d`. -/
def digit (d : ℕ) : UInt8 := UInt8.ofNat (48 + d)

lemma decimal_of_lt (h : i < 10) : decimal i = [digit i] := by
  rw [decimal, Nat.toDigits_of_lt_base h]
  interval_cases i <;> rfl

lemma decimal_of_le (h : 10 ≤ i) : decimal i = decimal (i / 10) ++ [digit (i % 10)] := by
  have hlast : Nat.toDigits 10 (i % 10) = [(i % 10).digitChar] :=
    Nat.toDigits_of_lt_base (Nat.mod_lt _ (by decide))
  have hdigit := decimal_of_lt (Nat.mod_lt i (by decide : 10 > 0))
  rw [decimal, hlast] at hdigit
  rw [decimal, decimal, Nat.toDigits_of_base_le (by decide) h, List.map_append, ← hdigit]

lemma padded_one (h : i < 10) : padded 1 i = [digit i] := by
  rw [padded, decimal_of_lt h]
  rfl

/-- One more place. -/
lemma padded_succ (hw : 0 < width) (i : ℕ) :
    padded (width + 1) i = padded width (i / 10) ++ [digit (i % 10)] := by
  by_cases h : i < 10
  · obtain ⟨n, rfl⟩ : ∃ n, width = n + 1 := ⟨width - 1, by omega⟩
    have hzero : decimal 0 = List.replicate 1 48 := by decide +kernel
    rw [Nat.div_eq_of_lt h, Nat.mod_eq_of_lt h, padded, padded, decimal_of_lt h, hzero,
      List.replicate_append_replicate]
    rfl
  · rw [padded, padded, decimal_of_le (not_lt.mp h), List.length_append, List.append_assoc]
    simp

lemma length_padded (hw : 0 < width) (h : i < 10 ^ width) : (padded width i).length = width := by
  have hle := length_decimal_le hw h
  rw [padded, List.length_append, List.length_replicate]
  omega

lemma padded_lt (hw : 0 < width) (hij : i < j) (hj : j < 10 ^ width) :
    padded width i < padded width j := by
  induction width, hw using Nat.le_induction generalizing i j with
  | base =>
    have hj' : j < 10 := hj
    rw [padded_one (by omega), padded_one hj', List.cons_lt_cons_iff]
    refine .inl ?_
    rw [UInt8.lt_iff_toNat_lt, digit, digit, UInt8.toNat_ofNat', UInt8.toNat_ofNat']
    omega
  | succ width hw ih =>
    have hi' : i / 10 < 10 ^ width := by rw [Nat.pow_succ] at hj; omega
    have hj' : j / 10 < 10 ^ width := by rw [Nat.pow_succ] at hj; omega
    rw [padded_succ hw, padded_succ hw]
    refine append_lt_append ?_ ?_
    · rw [length_padded hw hi', length_padded hw hj']
    · by_cases hdiv : i / 10 < j / 10
      · exact .inl (ih hdiv hj')
      · have heq : i / 10 = j / 10 := by omega
        refine .inr ⟨by rw [heq], ?_⟩
        rw [UInt8.lt_iff_toNat_lt, digit, digit, UInt8.toNat_ofNat', UInt8.toNat_ofNat']
        omega

/-- If `log10` is not below the logarithm, all numbers have the same width, and the names
from the log file to the oldest backup stand in the order of a directory listing. -/
theorem names_sorted (log10 : ℕ → ℕ) (c : Config) (hname : 0 ∉ c.fileName)
    (hlog : ∀ n, Nat.log 10 n ≤ log10 n) {i j : ℕ} (hij : i < j)
    (hj : j ≤ (Appender.new log10 c).maxBackupIndex) :
    (Appender.new log10 c).name i < (Appender.new log10 c).name j := by
  obtain ⟨j, rfl⟩ : ∃ k, j = k + 1 := ⟨j - 1, by omega⟩
  have hname' : 0 ∉ (Appender.new log10 c).fileName := hname
  cases i with
  | zero =>
    have hlt : c.fileName ++ [] <
        c.fileName ++ 46 :: padded (Appender.new log10 c).maxBackupIndexWidth (j + 1) :=
      List.append_left_lt (List.nil_lt_cons ..)
    rw [List.append_nil] at hlt
    rw [name_zero hname', name_succ hname', List.append_assoc]
    exact hlt
  | succ i =>
    rw [name_succ hname', name_succ hname']
    refine List.append_left_lt (padded_lt (Nat.succ_pos _) hij ?_)
    have hlt : (Appender.new log10 c).maxBackupIndex <
        10 ^ (Nat.log 10 (Appender.new log10 c).maxBackupIndex + 1) :=
      Nat.lt_pow_succ_log_self (by decide) _
    have hmono : 10 ^ (Nat.log 10 (Appender.new log10 c).maxBackupIndex + 1) ≤
        10 ^ (Appender.new log10 c).maxBackupIndexWidth :=
      Nat.pow_le_pow_right (by decide) (Nat.succ_le_succ (hlog _))
    omega

/-- The names `b.1` and `b.2`. -/
theorem names_sorted_two : (Appender.new (Nat.log 10) ⟨[98], 4, 2, true⟩).name 1 <
    (Appender.new (Nat.log 10) ⟨[98], 4, 2, true⟩).name 2 :=
  names_sorted (Nat.log 10) ⟨[98], 4, 2, true⟩ (by decide) (fun _ => le_rfl)
    (by decide) (by decide)

end Order

end ShareBike.RollingFile
