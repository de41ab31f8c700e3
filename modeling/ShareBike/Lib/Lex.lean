import Mathlib.Data.List.TakeWhile
import Mathlib.Order.RelClasses
import ShareBike.Lib.Groups
import ShareBike.Lib.Text

/-!
# The order of strings

Strings of bytes in the order of a dictionary, as a sorted map has them.
-/
namespace ShareBike.Lib

variable {c c' : UInt8} {key pre a b group m t : List UInt8}

instance isStrictOrder_bytes : IsStrictOrder (List UInt8) (· < ·) where

lemma compare_eq_lt_iff : compare a b = .lt ↔ a < b := by
  induction a generalizing b with
  | nil =>
    cases b with
    | nil => simp [compare, List.compareLex_nil_nil]
    | cons y b => simp [compare, List.compareLex_nil_cons]
  | cons x a ih =>
    cases b with
    | nil => simp [compare, List.compareLex_cons_nil]
    | cons y b =>
      rw [List.cons_lt_cons_iff, ← ih]
      simp only [compare, List.compareLex_cons_cons, Ordering.then_eq_lt]
      rw [← Std.compare_eq_lt (a := x), ← Std.compare_eq_iff_eq (a := x)]
      rfl

lemma append_lt_append_iff : pre ++ a < pre ++ b ↔ a < b := by
  induction pre with
  | nil => rfl
  | cons x pre ih =>
    rw [List.cons_append, List.cons_append, List.cons_lt_cons_iff, ih]
    simp

/-- The strings between two bounds that differ in the last byte by one. -/
lemma between_iff (hnext : ∀ x : UInt8, ¬ x < c ∧ x < c' ↔ x = c) :
    ¬ key < pre ++ [c] ∧ key < pre ++ [c'] ↔ ∃ r, key = pre ++ c :: r := by
  induction pre generalizing key with
  | nil =>
    cases key with
    | nil => simp
    | cons x key =>
      have hx := hnext x
      simp only [List.nil_append, List.cons_lt_cons_iff, List.not_lt_nil, and_false, or_false,
        List.cons.injEq, exists_and_left]
      rw [hx]
      simp
  | cons y pre ih =>
    cases key with
    | nil => simp
    | cons x key =>
      simp only [List.cons_append, List.cons_lt_cons_iff, List.cons.injEq, exists_and_left]
      rw [← ih]
      by_cases hx : x = y
      · simp [hx]
      · simp only [hx, false_and, or_false, iff_false, not_and]
        exact fun h => h

/-- The part of a string before the first `c`. -/
def upTo (c : UInt8) (s : List UInt8) : List UInt8 := s.takeWhile (· ≠ c)

lemma upTo_append (h : c ∉ group) (t : List UInt8) : upTo c (group ++ c :: t) = group := by
  have hne : ∀ x ∈ group, decide (x ≠ c) = true := by
    intro x hx
    exact decide_eq_true fun he => h (he ▸ hx)
  rw [upTo, List.takeWhile_append_of_pos hne]
  simp

lemma upTo_eq_self_iff : upTo c t = t ↔ c ∉ t := by
  rw [upTo, List.takeWhile_eq_self_iff]
  constructor
  · intro h hc
    simpa using h c hc
  · intro h x hx
    exact decide_eq_true fun he => h (he ▸ hx)

lemma notMem_upTo : c ∉ upTo c t := by
  intro h
  simpa using List.mem_takeWhile_imp h

/-- The part before the first `c` names a group. -/
lemma naming_upTo (c : UInt8) : Naming (upTo c) where
  idem k := upTo_eq_self_iff.mpr notMem_upTo
  lt k hk := by
    have hsplit : upTo c k ++ k.dropWhile (· ≠ c) = k := List.takeWhile_append_dropWhile
    have hrest : k.dropWhile (· ≠ c) ≠ [] := by
      intro hnil
      rw [hnil, List.append_nil] at hsplit
      exact hk hsplit
    obtain ⟨x, rest, hx⟩ := List.exists_cons_of_ne_nil hrest
    calc
      upTo c k = upTo c k ++ [] := (List.append_nil _).symm
      _ < upTo c k ++ x :: rest := append_lt_append_iff.mpr (List.nil_lt_cons x rest)
      _ = k := by rw [← hx, hsplit]

/-- The names that come between a group and its other keys. -/
lemma between_group_iff (hm : c ∉ m) :
    group < m ∧ m < group ++ c :: t ↔ ∃ x s, m = group ++ x :: s ∧ x < c := by
  induction group generalizing m with
  | nil =>
    cases m with
    | nil => simp
    | cons x m =>
      have hx : x ≠ c := fun he => hm (he ▸ List.mem_cons_self)
      simp [List.cons_lt_cons_iff, hx]
  | cons y group ih =>
    cases m with
    | nil => simp
    | cons x m =>
      have hm' : c ∉ m := fun h => hm (List.mem_cons_of_mem x h)
      simp only [List.cons_append, List.cons_lt_cons_iff, List.cons.injEq]
      by_cases hx : x = y
      · subst hx
        simpa using ih hm'
      · simp only [hx, Ne.symm hx, false_and, or_false, exists_false, iff_false, not_and]
        exact fun h => asymm_of (· < ·) h

end ShareBike.Lib
