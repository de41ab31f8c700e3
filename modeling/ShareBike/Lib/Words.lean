import Mathlib.Data.Nat.Bitwise
import Mathlib.Data.Set.Lattice
import Mathlib.Order.CompletePartialOrder
import Mathlib.Order.Interval.Set.Disjoint

/-!
# Addresses and address arithmetic on a 64-bit machine

Addresses and sizes are natural numbers; the machine's operations on them wrap
at `2 ^ 64`. The lemmas give the plain arithmetic value wherever no wrap occurs.
A region is a base address with a size. The last lemmas are about the conversion
of an `int` to a shorter unsigned type.
-/
namespace ShareBike.Lib

/-- The number of addresses. -/
def wordSize : ℕ := 2 ^ 64

def wadd (a b : ℕ) : ℕ := (a + b) % wordSize

/-- Unsigned subtraction, also of two pointers cast to an unsigned type. -/
def wsub (a b : ℕ) : ℕ := (a + (wordSize - b)) % wordSize

/-- `(p + (a - 1)) & ~(a - 1)` on an unsigned word. -/
def alignUp (p a : ℕ) : ℕ := wadd p (a - 1) &&& (wordSize - a)

lemma wadd_of_lt {a b : ℕ} (h : a + b < wordSize) : wadd a b = a + b := Nat.mod_eq_of_lt h

lemma wsub_of_le {a b : ℕ} (hb : b ≤ a) (ha : a < wordSize) : wsub a b = a - b := by
  have he : a + (wordSize - b) = (a - b) + wordSize := by omega
  rw [wsub, he, Nat.add_mod_right]
  exact Nat.mod_eq_of_lt (by omega)

/-- Clearing the low `k` bits of a word rounds it down to a multiple of `2 ^ k`. -/
lemma and_mask {x k : ℕ} (hk : k ≤ 64) (hx : x < wordSize) :
    x &&& (wordSize - 2 ^ k) = x / 2 ^ k * 2 ^ k := by
  have hmask : wordSize - 2 ^ k = (2 ^ (64 - k) - 1) <<< k := by
    rw [Nat.shiftLeft_eq, Nat.sub_mul, one_mul, ← pow_add, Nat.sub_add_cancel hk, wordSize]
  rw [hmask, ← Nat.shiftRight_eq_div_pow, ← Nat.shiftLeft_eq]
  apply Nat.eq_of_testBit_eq
  intro i
  simp only [Nat.testBit_and, Nat.testBit_shiftLeft, Nat.testBit_two_pow_sub_one,
    Nat.testBit_shiftRight]
  by_cases hi : k ≤ i
  · have hsum : k + (i - k) = i := by omega
    simp only [hi, hsum, decide_true, Bool.true_and]
    by_cases h64 : i < 64
    · have hlt : i - k < 64 - k := by omega
      simp [hlt]
    · have hbig : x < 2 ^ i := hx.trans_le (Nat.pow_le_pow_right (by omega) (not_lt.mp h64))
      simp [Nat.testBit_lt_two_pow hbig]
  · simp [hi]

/-- Below the last page of the address space, `alignUp` is the least multiple of
the alignment that is not below its argument. -/
lemma alignUp_eq {p k : ℕ} (hk : k ≤ 64) (hp : p + (2 ^ k - 1) < wordSize) :
    alignUp p (2 ^ k) = (p + (2 ^ k - 1)) / 2 ^ k * 2 ^ k := by
  rw [alignUp, wadd_of_lt hp, and_mask hk hp]

lemma dvd_alignUp {p k : ℕ} (hk : k ≤ 64) (hp : p + (2 ^ k - 1) < wordSize) :
    2 ^ k ∣ alignUp p (2 ^ k) := by
  rw [alignUp_eq hk hp]
  exact Nat.dvd_mul_left _ _

lemma le_alignUp {p k : ℕ} (hk : k ≤ 64) (hp : p + (2 ^ k - 1) < wordSize) :
    p ≤ alignUp p (2 ^ k) := by
  rw [alignUp_eq hk hp]
  have hpos : 0 < 2 ^ k := Nat.two_pow_pos k
  have hdiv := Nat.div_add_mod (p + (2 ^ k - 1)) (2 ^ k)
  have hmod := Nat.mod_lt (p + (2 ^ k - 1)) hpos
  rw [Nat.mul_comm] at hdiv
  omega

/-- Rounding up never passes a multiple of the alignment. -/
lemma alignUp_le {p q k : ℕ} (hk : k ≤ 64) (hpq : p ≤ q) (hq : 2 ^ k ∣ q)
    (hp : p + (2 ^ k - 1) < wordSize) : alignUp p (2 ^ k) ≤ q := by
  rw [alignUp_eq hk hp]
  obtain ⟨m, rfl⟩ := hq
  have hpos : 0 < 2 ^ k := Nat.two_pow_pos k
  rw [Nat.mul_comm (2 ^ k) m]
  refine Nat.mul_le_mul_right _ (Nat.lt_succ_iff.mp ?_)
  rw [Nat.div_lt_iff_lt_mul hpos, Nat.succ_mul, Nat.mul_comm m]
  omega

lemma alignUp_of_dvd {p k : ℕ} (hk : k ≤ 64) (hdvd : 2 ^ k ∣ p)
    (hp : p + (2 ^ k - 1) < wordSize) : alignUp p (2 ^ k) = p :=
  le_antisymm (alignUp_le hk le_rfl hdvd hp) (le_alignUp hk hp)

structure Region where
  addr : ℕ
  size : ℕ
  deriving DecidableEq, Repr

namespace Region

def bytes (r : Region) : Set ℕ := Set.Ico r.addr (r.addr + r.size)

/-- The range `x` lies inside the region `r`, also when `x` is empty. -/
def Within (x r : Region) : Prop := r.addr ≤ x.addr ∧ x.addr + x.size ≤ r.addr + r.size

/-- Two regions of an allocator: they share no byte and have different bases,
also when one of them has size zero. -/
def Apart (r s : Region) : Prop :=
  r.addr + max r.size 1 ≤ s.addr ∨ s.addr + max s.size 1 ≤ r.addr

lemma Apart.symm {r s : Region} (h : r.Apart s) : s.Apart r := Or.symm h

instance : Std.Symm Apart := ⟨fun _ _ => Apart.symm⟩

lemma Apart.addr_ne {r s : Region} (h : r.Apart s) : r.addr ≠ s.addr := by
  unfold Apart at h
  omega

lemma disjoint_iff {x y : Region} :
    Disjoint x.bytes y.bytes ↔
      min (x.addr + x.size) (y.addr + y.size) ≤ max x.addr y.addr := Set.Ico_disjoint_Ico

/-- Ranges inside different regions are disjoint. -/
lemma Within.disjoint {x y r s : Region} (hx : x.Within r) (hy : y.Within s)
    (h : r.Apart s) : Disjoint x.bytes y.bytes := by
  rw [disjoint_iff]
  unfold Within at hx hy
  unfold Apart at h
  omega

lemma Within.refl (r : Region) : r.Within r := ⟨le_rfl, le_rfl⟩

end Region

/-- An `int` in an `unsigned short` is reduced modulo `2 ^ 16`. -/
lemma toUInt16_toNat (x : Int32) : (x.toUInt32.toUInt16.toNat : ℤ) = x.toInt % 65536 := by
  have hint : x.toInt = x.toUInt32.toNat ∨ x.toInt = x.toUInt32.toNat - 4294967296 := by
    have hcond := BitVec.toInt_eq_toNat_cond x.toBitVec
    split_ifs at hcond
    · exact .inl hcond
    · exact .inr hcond
  rw [UInt32.toNat_toUInt16]
  omega

lemma toUInt16_eq_iff (x : Int32) :
    (x.toUInt32.toUInt16.toNat : ℤ) = x.toInt ↔ 0 ≤ x.toInt ∧ x.toInt < 65536 := by
  rw [toUInt16_toNat]
  omega

end ShareBike.Lib
