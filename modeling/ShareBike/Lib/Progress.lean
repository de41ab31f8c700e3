import Mathlib.Data.Nat.Basic
import ShareBike.Lib.Transition

/-!
# Runs that have to end

A system in which every step of some kind lowers a rank. Runs of such steps are no longer
than the rank, and some of them come to a state that has no such step.
-/
namespace ShareBike.Lib.System

variable {σ α : Type} {S : System σ α} {ok : α → Prop} {J : σ → Prop} {rank : σ → ℕ}
  {s t : σ} {as : List α}

/-- The steps of this kind keep `J` and lower the rank. -/
def Descends (S : System σ α) (ok : α → Prop) (J : σ → Prop) (rank : σ → ℕ) : Prop :=
  ∀ s a s', J s → ok a → S.step s a = some s' → J s' ∧ rank s' < rank s

/-- There is no step of this kind. -/
def Stuck (S : System σ α) (ok : α → Prop) (s : σ) : Prop := ∀ a, ok a → S.step s a = none

/-- The length of a run is bounded by what it lowers the rank. -/
theorem Descends.exec (h : S.Descends ok J rank) (hs : J s) (hok : ∀ a ∈ as, ok a)
    (he : S.exec s as = some t) : J t ∧ as.length + rank t ≤ rank s := by
  induction as generalizing s with
  | nil =>
    cases he
    exact ⟨hs, by simp⟩
  | cons a as ih =>
    obtain ⟨s', hstep, hrest⟩ := exec_cons.mp he
    obtain ⟨hs', hlower⟩ := h s a s' hs (hok a List.mem_cons_self) hstep
    obtain ⟨ht, hlength⟩ := ih hs' (fun b hb => hok b (List.mem_cons_of_mem a hb)) hrest
    refine ⟨ht, ?_⟩
    rw [List.length_cons]
    omega

/-- Some run ends in a state without further steps. -/
theorem Descends.exists_stuck (h : S.Descends ok J rank) (hs : J s) :
    ∃ as t, (∀ a ∈ as, ok a) ∧ S.exec s as = some t ∧ S.Stuck ok t := by
  induction hrank : rank s using Nat.strong_induction_on generalizing s with
  | _ n ih =>
    by_cases hstuck : S.Stuck ok s
    · exact ⟨[], s, by simp, rfl, hstuck⟩
    · unfold Stuck at hstuck
      push Not at hstuck
      obtain ⟨a, ha, hstep⟩ := hstuck
      obtain ⟨s', hs'⟩ := Option.ne_none_iff_exists'.mp hstep
      obtain ⟨hJ, hlower⟩ := h s a s' hs ha hs'
      obtain ⟨as, t, hok, he, ht⟩ := ih (rank s') (hrank ▸ hlower) hJ rfl
      refine ⟨a :: as, t, fun b hb => ?_, exec_cons.mpr ⟨s', hs', he⟩, ht⟩
      rcases List.mem_cons.mp hb with rfl | hb
      · exact ha
      · exact hok b hb

end ShareBike.Lib.System
