import Mathlib.Data.List.Basic
import Mathlib.Data.Nat.Basic

/-!
# Strings

Searches in a string of bytes, and the pieces between its delimiters.
-/
namespace ShareBike.Lib

variable {c : UInt8} {s t pre word : List UInt8} {i : ℕ}

/-- `find`: the first place of `c`. -/
def find (c : UInt8) : List UInt8 → Option ℕ
  | [] => none
  | b :: s => if b = c then some 0 else (find c s).map (· + 1)

/-- `find` of a word. -/
def findWord (word : List UInt8) : List UInt8 → Option ℕ
  | [] => if word = [] then some 0 else none
  | b :: s => if word.isPrefixOf (b :: s) then some 0 else (findWord word s).map (· + 1)

/-- `find_last_of`: the last place of `c`. -/
def findLastOf (c : UInt8) : List UInt8 → Option ℕ
  | [] => none
  | b :: s =>
    match findLastOf c s with
    | some i => some (i + 1)
    | none => if b = c then some 0 else none

/-- The string without the bytes at its ends that are in `set`. -/
def trimSet (set s : List UInt8) : List UInt8 :=
  ((s.dropWhile (· ∈ set)).reverse.dropWhile (· ∈ set)).reverse

lemma find_lt (h : find c s = some i) : i < s.length := by
  induction s generalizing i with
  | nil => cases h
  | cons b s ih =>
    rw [find] at h
    split_ifs at h
    · cases h
      exact Nat.succ_pos _
    · obtain ⟨j, hj, rfl⟩ := Option.map_eq_some_iff.mp h
      exact Nat.succ_lt_succ (ih hj)

/-- The first `c` is the one after a text without it. -/
lemma find_append (h : c ∉ pre) (t : List UInt8) : find c (pre ++ c :: t) = some pre.length := by
  induction pre with
  | nil => exact if_pos rfl
  | cons b pre ih =>
    have hb : b ≠ c := fun he => h (he ▸ List.mem_cons_self)
    rw [List.cons_append, find, if_neg hb, ih fun hm => h (List.mem_cons_of_mem _ hm)]
    rfl

lemma find_eq_none_iff : find c s = none ↔ c ∉ s := by
  induction s with
  | nil => simp [find]
  | cons b s ih =>
    rw [find]
    by_cases hb : b = c
    · simp [hb]
    · simp [hb, ih, Ne.symm hb]

/-- What a search finds: the text before has no `c`. -/
lemma find_split (h : find c s = some i) : s = s.take i ++ c :: s.drop (i + 1) ∧ c ∉ s.take i := by
  induction s generalizing i with
  | nil => cases h
  | cons b s ih =>
    rw [find] at h
    split_ifs at h with hb
    · cases h
      simp [hb]
    · obtain ⟨j, hj, rfl⟩ := Option.map_eq_some_iff.mp h
      have hsplit := ih hj
      refine ⟨?_, ?_⟩
      · simpa using hsplit.1
      · simpa [Ne.symm hb] using hsplit.2

lemma findLastOf_lt (h : findLastOf c s = some i) : i < s.length := by
  induction s generalizing i with
  | nil => cases h
  | cons b s ih =>
    simp only [findLastOf] at h
    cases hs : findLastOf c s with
    | none =>
      rw [hs] at h
      dsimp only at h
      split_ifs at h
      cases h
      exact Nat.succ_pos _
    | some j =>
      rw [hs] at h
      cases h
      exact Nat.succ_lt_succ (ih hs)

/-- The pieces between the delimiters; there is one more than there are delimiters. -/
def split (c : UInt8) (s : List UInt8) : List (List UInt8) :=
  match h : find c s with
  | none => [s]
  | some i => s.take i :: split c (s.drop (i + 1))
termination_by s.length
decreasing_by
  have hlt := find_lt h
  rw [List.length_drop]
  omega

lemma split_of_notMem (h : c ∉ s) : split c s = [s] := by
  have hnone := find_eq_none_iff.mpr h
  rw [split]
  split
  · rfl
  · rename_i hsome
    rw [hnone] at hsome
    cases hsome

lemma split_append (h : c ∉ pre) (t : List UInt8) :
    split c (pre ++ c :: t) = pre :: split c t := by
  have hfind := find_append h t
  rw [split]
  split
  · rename_i hnone
    rw [hfind] at hnone
    cases hnone
  · rename_i i hsome
    rw [hfind] at hsome
    cases hsome
    simp

/-- The pieces consist of bytes of the string. -/
lemma mem_of_mem_split {b : UInt8} (hp : pre ∈ split c s) (hb : b ∈ pre) : b ∈ s := by
  induction hlen : s.length using Nat.strong_induction_on generalizing s with
  | _ n ih =>
    cases hfind : find c s with
    | none =>
      rw [split_of_notMem (find_eq_none_iff.mp hfind), List.mem_singleton] at hp
      exact hp ▸ hb
    | some i =>
      obtain ⟨hs, hpre⟩ := find_split hfind
      have hlt := find_lt hfind
      rw [hs, split_append hpre, List.mem_cons] at hp
      rcases hp with rfl | hrest
      · exact List.mem_of_mem_take hb
      · refine List.mem_of_mem_drop (ih _ ?_ hrest rfl)
        rw [List.length_drop]
        omega

end ShareBike.Lib
