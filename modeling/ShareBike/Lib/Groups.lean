import Mathlib.Data.List.Sort
import Mathlib.Order.RelClasses

/-!
# Groups in a sorted list

Every key belongs to a group, which is named by a key that does not come after it. A scan
over the sorted keys remembers the group it is in. A group begins with the key that is its
name, and a key of another group that does not begin one stops the scan.
-/
namespace ShareBike.Lib

variable {K : Type} [LT K] [IsStrictOrder K (· < ·)]

/-- The names of the groups that begin, or the key that stops the scan. -/
def groupScan [DecidableEq K] (name : K → K) : K → List K → Except K (List K)
  | _, [] => .ok []
  | current, k :: keys =>
    if name k = current then groupScan name current keys
    else if name k = k then (k :: ·) <$> groupScan name k keys
    else .error k

/-- What makes `name` the name of a group. -/
structure Naming (name : K → K) : Prop where
  idem : ∀ k, name (name k) = name k
  lt : ∀ k, name k ≠ k → name k < k

/-- Every key is in its group when it is scanned: its group has begun, and no other group
begins in between. -/
def Grouped (name : K → K) (current : K) (keys : List K) : Prop :=
  ∀ k ∈ keys, name k ≠ k → (name k = current ∨ name k ∈ keys) ∧
    ∀ g ∈ keys, name g = g → name k < g → ¬ g < k

variable {name : K → K} {current k : K} {keys : List K}

/-- A key of the current group changes nothing for the others. -/
lemma Grouped.skip (hname : Naming name) (hsorted : (k :: keys).Pairwise (· < ·))
    (hk : name k = current) :
    Grouped name current (k :: keys) ↔ Grouped name current keys := by
  have hafter : ∀ g ∈ keys, k < g := (List.pairwise_cons.mp hsorted).1
  constructor
  · intro h j hj hne
    obtain ⟨hbegun, hbetween⟩ := h j (List.mem_cons_of_mem k hj) hne
    refine ⟨?_, fun g hg => hbetween g (List.mem_cons_of_mem k hg)⟩
    rcases hbegun with hcur | hmem
    · exact .inl hcur
    · rcases List.mem_cons.mp hmem with heq | hlater
      · -- the group begins with this key, so it is the current one
        exact .inl (by rw [← hk, ← heq, hname.idem])
      · exact .inr hlater
  · intro h j hj hne
    rcases List.mem_cons.mp hj with rfl | hlater
    · refine ⟨.inl hk, fun g hg _ _ hgj => ?_⟩
      rcases List.mem_cons.mp hg with rfl | hg
      · exact irrefl_of (· < ·) g hgj
      · exact asymm_of (· < ·) hgj (hafter g hg)
    · obtain ⟨hbegun, hbetween⟩ := h j hlater hne
      refine ⟨hbegun.imp_right (List.mem_cons_of_mem k), fun g hg hplain hlt hgj => ?_⟩
      rcases List.mem_cons.mp hg with rfl | hg
      · rcases hbegun with hcur | hmem
        · rw [hcur, ← hk, hplain] at hlt
          exact irrefl_of (· < ·) g hlt
        · exact asymm_of (· < ·) hlt (hafter _ hmem)
      · exact hbetween g hg hplain hlt hgj

/-- A key that is its own name begins the next group. -/
lemma Grouped.begin (hsorted : (k :: keys).Pairwise (· < ·)) (hcur : current < k)
    (hplain : name k = k) :
    Grouped name current (k :: keys) ↔ Grouped name k keys := by
  have hafter : ∀ g ∈ keys, k < g := (List.pairwise_cons.mp hsorted).1
  constructor
  · intro h j hj hne
    obtain ⟨hbegun, hbetween⟩ := h j (List.mem_cons_of_mem k hj) hne
    refine ⟨?_, fun g hg => hbetween g (List.mem_cons_of_mem k hg)⟩
    rcases hbegun with heq | hmem
    · -- the group that ends here has no key after this one
      exact absurd (hafter j hj) (hbetween k List.mem_cons_self hplain (heq ▸ hcur))
    · exact List.mem_cons.mp hmem
  · intro h j hj hne
    rcases List.mem_cons.mp hj with rfl | hlater
    · exact absurd hplain hne
    · obtain ⟨hbegun, hbetween⟩ := h j hlater hne
      refine ⟨.inr (List.mem_cons.mpr hbegun), fun g hg hgplain hlt hgj => ?_⟩
      rcases List.mem_cons.mp hg with rfl | hg
      · rcases hbegun with heq | hmem
        · exact absurd (heq ▸ hlt) (irrefl_of (· < ·) g)
        · exact asymm_of (· < ·) hlt (hafter _ hmem)
      · exact hbetween g hg hgplain hlt hgj

/-- A key of a group that has not begun, or has ended. -/
lemma not_grouped (hname : Naming name) (hsorted : (k :: keys).Pairwise (· < ·))
    (hcur : name k ≠ current) (hne : name k ≠ k) : ¬ Grouped name current (k :: keys) := by
  intro h
  rcases (h k List.mem_cons_self hne).1 with heq | hmem
  · exact hcur heq
  · rcases List.mem_cons.mp hmem with heq | hlater
    · exact hne heq
    · exact asymm_of (· < ·) (hname.lt k hne) ((List.pairwise_cons.mp hsorted).1 _ hlater)

/-- The scan of sorted keys goes through exactly if they are grouped, and then it gives the
names among the keys, without the one it starts with. -/
lemma groupScan_eq_ok_iff [DecidableEq K] (hname : Naming name) (hsorted : keys.Pairwise (· < ·))
    (hcur : ∀ k ∈ keys, k ≠ current → current < k) {names : List K} :
    groupScan name current keys = .ok names ↔
      Grouped name current keys ∧
        names = keys.filter fun k => name k = k ∧ k ≠ current := by
  induction keys generalizing current names with
  | nil =>
    have hgrouped : Grouped name current [] := fun k hk => by cases hk
    simp [groupScan, hgrouped, eq_comm]
  | cons k keys ih =>
    obtain ⟨hafter, hrest⟩ := List.pairwise_cons.mp hsorted
    unfold groupScan
    by_cases hk : name k = current
    · have hskip : ¬ (name k = k ∧ k ≠ current) := fun h => h.2 (h.1 ▸ hk)
      rw [if_pos hk, ih hrest (fun g hg => hcur g (List.mem_cons_of_mem k hg)),
        Grouped.skip hname hsorted hk, List.filter_cons_of_neg (by simpa using hskip)]
    · rw [if_neg hk]
      by_cases hplain : name k = k
      · have hne : k ≠ current := fun h => hk (hplain.trans h)
        have hlt : current < k := hcur k List.mem_cons_self hne
        -- no later key is the name that is current now
        have hnames : (keys.filter fun g => name g = g ∧ g ≠ current) =
            keys.filter fun g => name g = g ∧ g ≠ k := by
          refine List.filter_congr fun g hg => ?_
          have hg := hafter g hg
          simp [ne_of_irrefl' hg, ne_of_irrefl' (trans_of (· < ·) hlt hg)]
        rw [if_pos hplain, Grouped.begin hsorted hlt hplain,
          List.filter_cons_of_pos (by simp [hplain, hne]), hnames]
        have hlater : ∀ {later : List K}, groupScan name k keys = .ok later ↔ _ :=
          ih hrest fun g hg _ => hafter g hg
        cases hscan : groupScan name k keys with
        | error e =>
          have hnot : ¬ Grouped name k keys := by
            intro h
            rw [hlater.mpr ⟨h, rfl⟩] at hscan
            cases hscan
          simp [Functor.map, Except.map, hnot]
        | ok later =>
          obtain ⟨hgrouped, rfl⟩ := hlater.mp hscan
          simp only [Functor.map, Except.map, Except.ok.injEq, hgrouped, true_and]
          exact eq_comm
      · rw [if_neg hplain]
        simp [not_grouped hname hsorted hk hplain]

end ShareBike.Lib
