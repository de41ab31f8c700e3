import ShareBike.MemoryPoolFree

/-!
# Large allocations in turn

`ngx_palloc_large` gives a region to an empty node only if it finds one among the first
five. When it does not, it puts a new node in front, so that after `ngx_pfree` the
first node is empty. From then on every large allocation that is freed at once finds
the same node again.
-/
namespace ShareBike.MemoryPool
open ShareBike.Lib

variable {A : Malloc} {S : ℕ} {w w' : World} {allocs : List Alloc}

/-- The first empty node is one of the first five. -/
def Reusable (ls : List Large) : Prop :=
  ∃ l₁ n l₂, ls = l₁ ++ n :: l₂ ∧ (∀ l ∈ l₁, l.alloc ≠ 0) ∧ n.alloc = 0 ∧ l₁.length ≤ 4

/-- The search of `ngx_palloc_large` finds the first empty node among the first five. -/
lemma reuseLoop_of_empty {p k : ℕ} {l₁ : List Large} (l₂ : List Large) {n : Large}
    (hfull : ∀ l ∈ l₁, l.alloc ≠ 0) (hempty : n.alloc = 0) (hk : k + l₁.length ≤ 4)
    (t : Trace) :
    ∃ t', reuseLoop p k (l₁ ++ n :: l₂) t = (some (l₁ ++ ⟨n.addr, p⟩ :: l₂), t') := by
  induction l₁ generalizing k t with
  | nil => exact ⟨_, by simp [reuseLoop, hempty]; rfl⟩
  | cons l l₁ ih =>
    obtain ⟨hl, hrest⟩ := List.forall_mem_cons.mp hfull
    rw [List.length_cons] at hk
    obtain ⟨t', hr⟩ := ih (k := k + 1) hrest (by omega) (touch t l.addr sizeofPoolLarge)
    refine ⟨t', ?_⟩
    simp only [List.cons_append, reuseLoop, if_neg hl, hr, Option.map_some]
    rw [if_neg (by omega)]

lemma reusable_of_reuseLoop {p k : ℕ} {ls : List Large} {t : Trace} (hk : k ≤ 4)
    (h : (reuseLoop p k ls t).1 ≠ none) :
    ∃ l₁ n l₂, ls = l₁ ++ n :: l₂ ∧ (∀ l ∈ l₁, l.alloc ≠ 0) ∧ n.alloc = 0 ∧
      k + l₁.length ≤ 4 := by
  induction ls generalizing k t with
  | nil => exact absurd rfl h
  | cons l ls ih =>
    simp only [reuseLoop] at h
    split_ifs at h with h0 h3
    · exact ⟨[], l, ls, rfl, by simp, h0, hk⟩
    · exact absurd rfl h
    · have hrest : (reuseLoop p (k + 1) ls (touch t l.addr sizeofPoolLarge)).1 ≠ none := by
        intro he
        rw [he] at h
        exact h rfl
      obtain ⟨l₁, n, l₂, rfl, hfull, hempty, hlen⟩ := ih (by omega) hrest
      refine ⟨l :: l₁, n, l₂, rfl, List.forall_mem_cons.mpr ⟨h0, hfull⟩, hempty, ?_⟩
      rw [List.length_cons]
      omega

/-- `ngx_pfree` empties the node that was filled. -/
lemma pfreeLoop_of_filled {p : ℕ} (a : ℕ) {l₁ : List Large} (l₂ : List Large)
    (hne : ∀ l ∈ l₁, l.alloc ≠ p) (t : Trace) :
    ∃ t', pfreeLoop p (l₁ ++ ⟨a, p⟩ :: l₂) t = (true, l₁ ++ ⟨a, 0⟩ :: l₂, t') := by
  induction l₁ generalizing t with
  | nil => exact ⟨_, by simp [pfreeLoop]; rfl⟩
  | cons l l₁ ih =>
    obtain ⟨hl, hrest⟩ := List.forall_mem_cons.mp hne
    obtain ⟨t', hr⟩ := ih hrest (touch t l.addr sizeofPoolLarge)
    exact ⟨t', by simp [pfreeLoop, Ne.symm hl, hr]⟩

/-- `p = ngx_palloc(pool, n)`, and `ngx_pfree(pool, p)` if that did not fail. -/
def cycle (A : Malloc) (w : World) (n : ℕ) : Option World :=
  match ngxPalloc A w n with
  | (none, _) => none
  | (some p, w) => some (ngxPfree w p).2

def cycles (A : Malloc) : World → List ℕ → Option World
  | w, [] => some w
  | w, n :: ns => (cycle A w n).bind fun w => cycles A w ns

lemma cycles_cons {n : ℕ} {ns : List ℕ} :
    cycles A w (n :: ns) = some w' ↔ ∃ w₁, cycle A w n = some w₁ ∧ cycles A w₁ ns = some w' :=
  Option.bind_eq_some_iff

lemma Inv.cycle (h : Inv S [] ⟨w, allocs⟩) {n : ℕ} (hc : MemoryPool.cycle A w n = some w') :
    ∃ allocs', Inv S [] ⟨w', allocs'⟩ := by
  have hpalloc : Inv S [] (State.hold ⟨w, allocs⟩ (ngxPalloc A w n) n true) :=
    h.pallocWith n true
  simp only [MemoryPool.cycle] at hc
  rcases hr : ngxPalloc A w n with ⟨_ | p, w₁⟩
  · simp [hr] at hc
  · simp only [hr, Option.some.injEq] at hc
    rw [hr] at hpalloc
    rw [← hc]
    exact ⟨_, hpalloc.pfree (A := A) p⟩

/-- A region that was just allocated is in no node. -/
lemma Inv.alloc_ne_fresh (h : Inv S [] ⟨w, allocs⟩) {t : Trace} (hlive : live t = live w.trace)
    {n p : ℕ} (hm : A.malloc t n = some p) : ∀ l ∈ w.pool.large, l.alloc ≠ p := by
  rintro l hl rfl
  obtain ⟨hnull, hapart⟩ := A.fresh _ _ _ hm
  have hheld : l.alloc ∈ (live w.trace).map Region.addr := by
    refine h.owned.mem_iff.mpr ?_
    exact List.mem_append_right _ (List.mem_append_right _ (mem_heldBy.mpr ⟨hnull, l, hl, rfl⟩))
  obtain ⟨r, hr, he⟩ := List.mem_map.mp hheld
  exact (hapart r (hlive ▸ hr)).addr_ne he.symm

/-- A pair of calls for a large region leaves the pool as it was if a node can be used
again; otherwise it leaves an empty node in front. -/
lemma cycle_spec (h : Inv S [] ⟨w, allocs⟩) {n : ℕ} (hn : w.pool.max < n)
    (hc : cycle A w n = some w') :
    (Reusable w.pool.large → w'.pool = w.pool) ∧
    (¬ Reusable w.pool.large → w'.pool.max = w.pool.max ∧
      ∃ a, w'.pool.large = ⟨a, 0⟩ :: w.pool.large) := by
  set t := touch w.trace w.pool.addr sizeofPool with ht
  simp only [cycle, ngxPalloc, pallocWith, if_neg (not_le.mpr hn), ngxPallocLarge, ngxAlloc,
    ← ht] at hc
  cases hm : A.malloc t n with
  | none => simp [hm] at hc
  | some p =>
    simp only [hm] at hc
    constructor
    · rintro ⟨l₁, m, l₂, hlarge, hfull, hempty, hlen⟩
      obtain ⟨t', hr⟩ := reuseLoop_of_empty (p := p) (k := 0) l₂ hfull hempty
        (by omega) (touch (.malloc n (some p) :: t) w.pool.addr sizeofPool)
      rw [← hlarge] at hr
      simp only [hr, Option.some.injEq] at hc
      have hne : ∀ l ∈ l₁, l.alloc ≠ p := fun l hl =>
        h.alloc_ne_fresh (t := t) rfl hm l (by rw [hlarge]; exact List.mem_append_left _ hl)
      obtain ⟨t'', hfree⟩ := pfreeLoop_of_filled m.addr l₂ hne
        (touch t' w.pool.addr sizeofPool)
      have hsame : l₁ ++ (⟨m.addr, 0⟩ : Large) :: l₂ = w.pool.large := by
        rw [hlarge, ← hempty]
      rw [← hc]
      simp only [ngxPfree, hfree, hsame]
    · intro hnot
      have hr : (reuseLoop p 0 w.pool.large
          (touch (.malloc n (some p) :: t) w.pool.addr sizeofPool)).1 = none := by
        by_contra hsome
        obtain ⟨l₁, m, l₂, hlarge, hfull, hempty, hlen⟩ :=
          reusable_of_reuseLoop (Nat.zero_le _) hsome
        exact hnot ⟨l₁, m, l₂, hlarge, hfull, hempty, by omega⟩
      rcases hloop : reuseLoop p 0 w.pool.large
        (touch (.malloc n (some p) :: t) w.pool.addr sizeofPool) with ⟨_ | large, t'⟩
      · simp only [hloop, pushLarge] at hc
        have hserved := ngxPallocSmall_served (A := A) { w with trace := t' } sizeofPoolLarge true
        rcases hsmall : ngxPallocSmall A { w with trace := t' } sizeofPoolLarge true with
          ⟨_ | a, w₁⟩
        · simp [hsmall] at hc
        · rw [hsmall] at hserved
          simp only [hsmall, Option.some.injEq] at hc
          obtain ⟨t'', hfree⟩ := pfreeLoop_of_filled (p := p) a
            w₁.pool.large (List.forall_mem_nil _) (touch (touch (touch w₁.trace a sizeofPoolLarge)
              w₁.pool.addr sizeofPool) w₁.pool.addr sizeofPool)
          rw [List.nil_append] at hfree
          rw [← hc]
          simp only [ngxPfree, hfree]
          exact ⟨hserved.max_eq, a, by rw [hserved.large_eq]; rfl⟩
      · rw [hloop] at hr
        cases hr

/-- Once a node can be used again, the pool does not change any more. -/
lemma cycles_reusable (h : Inv S [] ⟨w, allocs⟩) (hreuse : Reusable w.pool.large) {ns : List ℕ}
    (hn : ∀ n ∈ ns, w.pool.max < n) (hc : cycles A w ns = some w') : w'.pool = w.pool := by
  induction ns generalizing w allocs with
  | nil =>
    cases hc
    rfl
  | cons n ns ih =>
    obtain ⟨w₁, hone, hrest⟩ := cycles_cons.mp hc
    have hpool := (cycle_spec h (hn n List.mem_cons_self) hone).1 hreuse
    obtain ⟨allocs', hinv⟩ := h.cycle hone
    refine (ih hinv (hpool ▸ hreuse) (fun m hm => ?_) hrest).trans hpool
    rw [hpool]
    exact hn m (List.mem_cons_of_mem _ hm)

/-- Large allocations that are freed at once, as often as one likes and of any sizes, add
one node to the large list at most, and after the first of them nothing in the pool
changes. -/
theorem cycles_add_one_node (A : Malloc) (pagesize S : ℕ) (hmin : ngxMinPoolSize ≤ S)
    (hdvd : ngxAlignment ∣ S) {s : State} (h : (system A pagesize S).Reachable s)
    (sizes : List ℕ) {w : World} (hsizes : ∀ n ∈ sizes, s.world.pool.max < n)
    (hc : cycles A s.world sizes = some w) :
    (∃ added : List ℕ, added.length ≤ 1 ∧
      w.pool.large.map Large.addr = added ++ s.world.pool.large.map Large.addr) ∧
    ∀ n ns, sizes = n :: ns → ∃ w₁, cycle A s.world n = some w₁ ∧ w.pool = w₁.pool := by
  have hinv : Inv S [] s := inv_of_reachable hmin hdvd h
  cases sizes with
  | nil =>
    cases hc
    exact ⟨⟨[], Nat.zero_le _, rfl⟩, fun n ns he => by cases he⟩
  | cons n ns =>
    obtain ⟨w₁, hone, hrest⟩ := cycles_cons.mp hc
    obtain ⟨hsame, hpush⟩ := cycle_spec hinv (hsizes n List.mem_cons_self) hone
    obtain ⟨allocs', hinv₁⟩ := hinv.cycle hone
    have hmax : ∀ m ∈ ns, s.world.pool.max < m := fun m hm =>
      hsizes m (List.mem_cons_of_mem _ hm)
    by_cases hreuse : Reusable s.world.pool.large
    · have hpool := hsame hreuse
      have hend := cycles_reusable hinv₁ (hpool ▸ hreuse) (by rwa [hpool]) hrest
      refine ⟨⟨[], Nat.zero_le _, by rw [hend, hpool]; rfl⟩, ?_⟩
      rintro m ms he
      cases he
      exact ⟨w₁, hone, hend⟩
    · obtain ⟨hmax₁, a, hlarge⟩ := hpush hreuse
      have hreuse₁ : Reusable w₁.pool.large :=
        ⟨[], ⟨a, 0⟩, s.world.pool.large, hlarge, by simp, rfl, Nat.zero_le _⟩
      have hend := cycles_reusable hinv₁ hreuse₁ (by rwa [hmax₁]) hrest
      refine ⟨⟨[a], Nat.le_refl _, by rw [hend, hlarge]; rfl⟩, ?_⟩
      rintro m ms he
      cases he
      exact ⟨w₁, hone, hend⟩

/-- Three pairs in a new pool. -/
theorem cycles_add_one_node_three : ∃ w, cycles bump smallPool.world [100, 300, 200] = some w ∧
    w.pool.large = [⟨72, 0⟩] ∧
    ∃ w₁, cycle bump smallPool.world 100 = some w₁ ∧ w.pool = w₁.pool := by
  refine ⟨_, rfl, by decide +kernel, ?_⟩
  exact (cycles_add_one_node bump 4096 96 (by decide) (by decide) (.init smallPool_init)
    [100, 300, 200] (by decide) rfl).2 100 [300, 200] rfl

end ShareBike.MemoryPool
