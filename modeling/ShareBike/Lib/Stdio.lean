import Mathlib.Logic.Function.Iterate
import ShareBike.Lib.Bytes

/-!
# Lines read with `fgets`

A line that is longer than the buffer is read in pieces. At the end of the file `fgets`
leaves the buffer as it is.
-/
namespace ShareBike.Lib

/-- At most `n` bytes, up to the first newline. -/
def lineOf : ℕ → List UInt8 → List UInt8
  | 0, _ => []
  | _ + 1, [] => []
  | n + 1, b :: bytes => if b = 10 then [b] else b :: lineOf n bytes

/-- `fgets(buf, size, stdin)`: the buffer afterwards, and what is left to read. -/
def fgets (size : ℕ) (p : List UInt8 × List UInt8) : List UInt8 × List UInt8 :=
  let line := lineOf (size - 1) p.2
  if line = [] then p else (overwrite p.1 0 (line ++ [0]), p.2.drop line.length)

variable {buf stdin : List UInt8} {n size : ℕ} {p : List UInt8 × List UInt8}

lemma lineOf_prefix (n : ℕ) (bytes : List UInt8) : lineOf n bytes <+: bytes := by
  induction n generalizing bytes with
  | zero => exact List.nil_prefix
  | succ n ih =>
    cases bytes with
    | nil => exact List.nil_prefix
    | cons b bytes =>
      unfold lineOf
      split_ifs
      · exact ⟨bytes, rfl⟩
      · exact (List.prefix_cons_inj b).mpr (ih bytes)

lemma lineOf_ne_nil (hn : 0 < n) (h : stdin ≠ []) : lineOf n stdin ≠ [] := by
  cases n with
  | zero => omega
  | succ n =>
    cases stdin with
    | nil => exact absurd rfl h
    | cons b bytes =>
      unfold lineOf
      split_ifs <;> simp

/-- The text that was read is what is missing from the file. -/
lemma cstr_fgets (hsize : 1 < size) (hnul : 0 ∉ p.2) (hp : p.2 ≠ []) :
    cstr (fgets size p).1 ++ (fgets size p).2 = p.2 := by
  obtain ⟨rest, hrest⟩ := lineOf_prefix (size - 1) p.2
  have hline : 0 ∉ lineOf (size - 1) p.2 := fun h => hnul (hrest ▸ List.mem_append_left rest h)
  have hbuf : overwrite p.1 0 (lineOf (size - 1) p.2 ++ [0]) =
      lineOf (size - 1) p.2 ++ 0 :: p.1.drop (lineOf (size - 1) p.2 ++ [0]).length := by
    simp [overwrite]
  have hdrop : p.2.drop (lineOf (size - 1) p.2).length = rest :=
    (congrArg (List.drop _) hrest.symm).trans List.drop_left
  unfold fgets
  rw [if_neg (lineOf_ne_nil (by omega) hp)]
  dsimp only
  rw [hbuf, cstr_append_nul, cstr_eq_self_iff.mpr hline, hdrop, hrest]

/-- A buffer that `fgets` has filled holds a C string. -/
lemma nul_mem_fgets (hsize : 1 < size) (h : p.2 ≠ [] ∨ 0 ∈ p.1) : 0 ∈ (fgets size p).1 := by
  unfold fgets
  dsimp only
  split_ifs with hline
  · exact h.resolve_left fun hp => lineOf_ne_nil (by omega) hp hline
  · simp [overwrite]

/-- The texts of the first calls are the start of the file. -/
lemma flatMap_fgets (hsize : 1 < size) (hnul : 0 ∉ p.2)
    (h : ∀ k < n, ((fgets size)^[k] p).2 ≠ []) :
    (List.range n).flatMap (fun k => cstr ((fgets size)^[k + 1] p).1) ++
      ((fgets size)^[n] p).2 = p.2 := by
  induction n with
  | zero => rfl
  | succ n ih =>
    have hstart := ih fun k hk => h k (Nat.lt_succ_of_lt hk)
    have hrest : 0 ∉ ((fgets size)^[n] p).2 := fun hm => hnul (hstart ▸ List.mem_append_right _ hm)
    rw [List.range_succ, List.flatMap_append, List.flatMap_singleton, List.append_assoc]
    rw [Function.iterate_succ_apply', cstr_fgets hsize hrest (h n (Nat.lt_succ_self n)), hstart]

end ShareBike.Lib
