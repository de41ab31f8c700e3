import Mathlib.Data.List.Basic
import Mathlib.Logic.Function.Basic
import Mathlib.Tactic.Basic

/-!
# Generations

Generation `0` is the newest. Read from the oldest to the newest, the generations
keep their order when one of them is moved to the next number: what is lost is at
most the generation that had the number.
-/
namespace ShareBike.Lib

variable {α : Type} {g g' : ℕ → List α} {k n : ℕ}

/-- The generations `n, …, 0`, the oldest first. -/
def joined (g : ℕ → List α) : ℕ → List α
  | 0 => g 0
  | n + 1 => g (n + 1) ++ joined g n

/-- Generation `k` becomes generation `k + 1`. -/
def moveUp (g : ℕ → List α) (k : ℕ) : ℕ → List α :=
  Function.update (Function.update g (k + 1) (g k)) k []

/-- The generations below `n` move up by one; generation `n` is lost. -/
def shiftUp (g : ℕ → List α) (n : ℕ) : ℕ → List α
  | 0 => []
  | k + 1 => if k + 1 ≤ n then g k else g (k + 1)

lemma moveUp_of_ne {j : ℕ} (hk : j ≠ k) (hs : j ≠ k + 1) : moveUp g k j = g j := by
  rw [moveUp, Function.update_of_ne hk, Function.update_of_ne hs]

lemma moveUp_succ (g : ℕ → List α) (k : ℕ) : moveUp g k (k + 1) = g k := by
  rw [moveUp, Function.update_of_ne (Nat.succ_ne_self k), Function.update_self]

lemma moveUp_self (g : ℕ → List α) (k : ℕ) : moveUp g k k = [] := Function.update_self ..

lemma joined_congr (h : ∀ k ≤ n, g k = g' k) : joined g n = joined g' n := by
  induction n with
  | zero => exact h 0 (Nat.le_refl 0)
  | succ n ih =>
    rw [joined, joined, h (n + 1) (Nat.le_refl _), ih fun k hk => h k (Nat.le_succ_of_le hk)]

/-- The oldest generation stands first. -/
lemma joined_clear_last (g : ℕ → List α) (n : ℕ) :
    joined g n = g n ++ joined (Function.update g n []) n := by
  cases n with
  | zero => simp [joined]
  | succ n =>
    have hrest : joined (Function.update g (n + 1) []) n = joined g n :=
      joined_congr fun k hk => Function.update_of_ne (by omega) ..
    simp [joined, hrest]

lemma joined_clear_sublist (g : ℕ → List α) (k n : ℕ) :
    (joined (Function.update g k []) n).Sublist (joined g n) := by
  induction n with
  | zero =>
    by_cases hk : 0 = k
    · simp [joined, ← hk]
    · simp [joined, Function.update_of_ne hk]
  | succ n ih =>
    by_cases hk : n + 1 = k
    · simpa [joined, hk] using ih.trans (List.sublist_append_right ..)
    · simpa [joined, Function.update_of_ne hk] using ih

/-- What was generation `k + 1` is replaced by generation `k`. -/
lemma joined_moveUp_eq (hk : k + 1 ≤ n) :
    joined (moveUp g k) n = joined (Function.update g (k + 1) []) n := by
  induction n with
  | zero => omega
  | succ n ih =>
    by_cases he : k = n
    · subst he
      have hrest : joined (moveUp g k) k = joined (Function.update g k []) k :=
        joined_congr fun j hj => by
          by_cases hjk : j = k
          · rw [hjk, moveUp_self, Function.update_self]
          · rw [moveUp_of_ne hjk (by omega), Function.update_of_ne hjk]
      have hold : joined (Function.update g (k + 1) []) k = joined g k :=
        joined_congr fun j hj => Function.update_of_ne (by omega) ..
      rw [joined, joined, moveUp_succ, hrest, hold, Function.update_self, List.nil_append]
      exact (joined_clear_last g k).symm
    · rw [joined, joined, moveUp_of_ne (by omega) (by omega),
        Function.update_of_ne (by omega), ih (by omega)]

lemma joined_moveUp_sublist (hk : k + 1 ≤ n) :
    (joined (moveUp g k) n).Sublist (joined g n) := by
  rw [joined_moveUp_eq hk]
  exact joined_clear_sublist ..

/-- Shifting is moving one generation after the other, from the oldest on. -/
lemma shiftUp_succ (g : ℕ → List α) (n : ℕ) :
    shiftUp g (n + 1) = shiftUp (moveUp g n) n := by
  funext k
  cases k with
  | zero => rfl
  | succ k =>
    simp only [shiftUp]
    by_cases hlt : k + 1 ≤ n
    · rw [if_pos (by omega), if_pos hlt, moveUp_of_ne (by omega) (by omega)]
    · rw [if_neg hlt]
      by_cases he : k = n
      · rw [he, if_pos (Nat.le_refl _), moveUp_succ]
      · rw [if_neg (by omega), moveUp_of_ne (by omega) (by omega)]

lemma shiftUp_zero (hfree : g 0 = []) : shiftUp g 0 = g := by
  funext k
  cases k with
  | zero => exact hfree.symm
  | succ k => rfl

/-- Only the oldest generation is lost. -/
lemma joined_shiftUp (g : ℕ → List α) (n : ℕ) : joined g n = g n ++ joined (shiftUp g n) n := by
  induction n generalizing g with
  | zero => simp [joined, shiftUp]
  | succ n ih =>
    have hnew : shiftUp g (n + 1) (n + 1) = g n := if_pos (Nat.le_refl _)
    have hrest : joined (shiftUp g (n + 1)) n = joined (shiftUp g n) n := by
      refine joined_congr fun k hk => ?_
      cases k with
      | zero => rfl
      | succ k => simp only [shiftUp, if_pos hk, if_pos (Nat.le_succ_of_le hk)]
    rw [joined, joined, hnew, hrest, ← ih]

/-- What is appended to the newest generation is appended to all of them. -/
lemma joined_append (g : ℕ → List α) (xs : List α) (n : ℕ) :
    joined (Function.update g 0 (g 0 ++ xs)) n = joined g n ++ xs := by
  induction n with
  | zero => simp [joined]
  | succ n ih => rw [joined, joined, ih, Function.update_of_ne (by omega), List.append_assoc]

end ShareBike.Lib
