import ShareBike.MemoryPoolInvariant

/-!
# Who frees what: the large list through all operations

A region that `malloc` returned is freed by the error path of the request, by
`ngx_pfree`, by `ngx_reset_pool` or by `ngx_destroy_pool`. Each operation is
shown to keep the invariant, and the last one to leave nothing live.
-/
namespace ShareBike.MemoryPool
open ShareBike.Lib

variable {A : Malloc} {S : ℕ} {pending : List ℕ} {s : State}

lemma IsLarge.of_mem {w w' : World} {x : Region} (h : IsLarge w x)
    (hl : live w'.trace = live w.trace)
    (hn : ∀ l ∈ w.pool.large, l.alloc = x.addr → ∃ l' ∈ w'.pool.large, l'.alloc = l.alloc) :
    IsLarge w' x := by
  obtain ⟨hlive, l, hmem, he⟩ := h
  obtain ⟨l', hmem', he'⟩ := hn l hmem he
  exact ⟨hl ▸ hlive, l', hmem', he'.trans he⟩

/-- The caller receives a region of its own that a node remembers. -/
lemma Inv.hold (h : Inv S pending s) {x : Alloc} (hx : IsLarge s.world x.region)
    (hd : ∀ y ∈ s.allocs, Disjoint x.region.bytes y.region.bytes)
    (ha : ngxAlignment ∣ x.ptr) : Inv S pending ⟨s.world, x :: s.allocs⟩ := by
  refine ⟨h.chain, h.owned, h.nodes, ?_, ?_, ?_⟩
  · rintro y hy
    rcases List.mem_cons.mp hy with rfl | hy
    · exact .inr hx
    · exact h.allocs y hy
  · have hp : ((⟨s.world, x :: s.allocs⟩ : State).ranges).Perm (x.region :: s.ranges) := by
      simp only [State.ranges, List.map_cons]
      exact List.perm_middle
    refine hp.symm.pairwise (List.pairwise_cons.mpr ⟨?_, h.disjoint⟩) fun h' => h'.symm
    intro y hy
    rcases List.mem_append.mp hy with hy | hy
    · obtain ⟨l, hl, rfl⟩ := List.mem_map.mp hy
      exact (IsLarge.disjoint h.chain h.owned (h.nodes l hl) hx).symm
    · obtain ⟨z, hz, rfl⟩ := List.mem_map.mp hy
      exact hd z hz
  · rintro y hy
    rcases List.mem_cons.mp hy with rfl | hy
    · exact fun _ => ha
    · exact h.aligned y hy

/-- A pending region gets a node of its own at the head of the list. -/
lemma Inv.push {p l : ℕ} (h : Inv S [p] s) (hp : p ≠ 0)
    (hin : InPool s.world.pool ⟨l, sizeofPoolLarge⟩)
    (hd : ∀ y ∈ s.ranges, Disjoint (Region.bytes ⟨l, sizeofPoolLarge⟩) y.bytes) :
    Inv S [] ⟨{ s.world with
      pool := { s.world.pool with large := ⟨l, p⟩ :: s.world.pool.large } }, s.allocs⟩ := by
  refine ⟨⟨h.chain.min_size, h.chain.dvd_size, h.chain.first, h.chain.block, h.chain.nodup,
    h.chain.current, h.chain.max_le, h.chain.sound⟩, ?_, ?_, ?_, ?_, h.aligned⟩
  · refine h.owned.trans ?_
    have hpn : decide (p ≠ 0) = true := by simpa using hp
    simp only [Pool.held, List.map_cons, List.filter_cons, hpn, if_true, List.nil_append]
    have hmiddle : (p :: (s.world.pool.blocks.map Block.addr ++
        (s.world.pool.large.map Large.alloc).filter (· ≠ 0))).Perm _ := List.perm_middle.symm
    exact hmiddle
  · intro n hn
    rcases List.mem_cons.mp hn with rfl | hn
    · exact hin
    · exact h.nodes n hn
  · intro x hx
    refine (h.allocs x hx).imp id fun hl => ?_
    exact hl.of_mem rfl fun n hn _ => ⟨n, List.mem_cons_of_mem _ hn, rfl⟩
  · exact List.pairwise_cons.mpr ⟨hd, h.disjoint⟩

/-- A node is given another region, or none; the caller keeps no pointer to the
region that it had. -/
lemma Inv.relabel (h : Inv S pending s) {l₁ l₂ : List Large} {n : Large}
    (hl : s.world.pool.large = l₁ ++ n :: l₂) (q : ℕ) {allocs : List Alloc}
    (hsub : allocs.Sublist s.allocs)
    (hne : ∀ x ∈ allocs, IsLarge s.world x.region → x.ptr ≠ n.alloc) (pending' : List ℕ)
    (hp : (pending ++ s.world.pool.held).Perm
      (pending' ++ Pool.held { s.world.pool with large := l₁ ++ ⟨n.addr, q⟩ :: l₂ })) :
    Inv S pending' ⟨{ s.world with
      pool := { s.world.pool with large := l₁ ++ ⟨n.addr, q⟩ :: l₂ } }, allocs⟩ := by
  have hregion : (l₁ ++ (⟨n.addr, q⟩ : Large) :: l₂).map Large.region =
      s.world.pool.large.map Large.region := by simp [hl, Large.region]
  refine ⟨⟨h.chain.min_size, h.chain.dvd_size, h.chain.first, h.chain.block, h.chain.nodup,
    h.chain.current, h.chain.max_le, h.chain.sound⟩, h.owned.trans hp, ?_, ?_, ?_, ?_⟩
  · intro l hmem
    have hr : l.region ∈ s.world.pool.large.map Large.region :=
      hregion ▸ List.mem_map_of_mem hmem
    obtain ⟨l', hl', he⟩ := List.mem_map.mp hr
    exact he ▸ h.nodes l' hl'
  · intro x hx
    refine (h.allocs x (hsub.subset hx)).imp id fun hlarge => ?_
    have hxn : x.ptr ≠ n.alloc := hne x hx hlarge
    refine hlarge.of_mem rfl fun l hmem he => ⟨l, ?_, rfl⟩
    rw [hl] at hmem
    rcases List.mem_append.mp hmem with hmem | hmem
    · exact List.mem_append_left _ hmem
    rcases List.mem_cons.mp hmem with rfl | hmem
    · exact absurd he.symm hxn
    · exact List.mem_append_right _ (List.mem_cons_of_mem _ hmem)
  · simp only [State.ranges, hregion]
    exact h.disjoint.sublist ((hsub.map _).append_left _)
  · exact fun x hx => h.aligned x (hsub.subset hx)

/-- Filling an empty node adds one base to those that the pool has to free. -/
lemma Pool.held_fill {p : Pool} {l₁ l₂ : List Large} {l : Large} {q : ℕ}
    (hl : p.large = l₁ ++ l :: l₂) (h0 : l.alloc = 0) (hq : q ≠ 0) :
    (Pool.held { p with large := l₁ ++ ⟨l.addr, q⟩ :: l₂ }).Perm (q :: p.held) := by
  have hqn : decide (q ≠ 0) = true := by simpa using hq
  simp only [Pool.held, hl, List.map_append, List.map_cons, List.filter_append,
    List.filter_cons, h0, hqn, if_true, ne_eq, not_true_eq_false, decide_false,
    Bool.false_eq_true, if_false]
  rw [← List.append_assoc, ← List.append_assoc]
  exact List.perm_middle

/-- A node lies in a block, so it may be read while the block is live. -/
lemma Inv.node_covered (h : Inv S pending s) {l : Large} (hl : l ∈ s.world.pool.large) :
    ∃ r ∈ live s.world.trace, r.addr ∈ s.world.pool.blocks.map Block.addr ∧
      l.region.Within r := by
  obtain ⟨b, hb, hw⟩ := h.chain.within (h.nodes l hl)
  exact ⟨_, (h.chain.block b hb).live, List.mem_map_of_mem hb, hw⟩

lemma Inv.access_pool (h : Inv S pending s) : Inv S pending
    ⟨{ s.world with trace := touch s.world.trace s.world.pool.addr sizeofPool },
      s.allocs⟩ := h.access h.chain.pool_covered

lemma reuseLoop_some {p k : ℕ} {ls ls' : List Large} {t t' : Trace}
    (h : reuseLoop p k ls t = (some ls', t')) :
    ∃ l₁ n l₂, ls = l₁ ++ n :: l₂ ∧ n.alloc = 0 ∧ ls' = l₁ ++ ⟨n.addr, p⟩ :: l₂ := by
  induction ls generalizing k t ls' with
  | nil => simp [reuseLoop] at h
  | cons l ls ih =>
    simp only [reuseLoop] at h
    split_ifs at h with h0 h3
    · cases h
      exact ⟨[], l, ls, rfl, h0, rfl⟩
    · simp at h
    · rcases hr : reuseLoop p (k + 1) ls (touch t l.addr sizeofPoolLarge) with ⟨_ | r, t''⟩
      · simp [hr] at h
      · rw [hr] at h
        cases h
        obtain ⟨l₁, n, l₂, rfl, hn, rfl⟩ := ih hr
        exact ⟨l :: l₁, n, l₂, rfl, hn, rfl⟩

lemma reuseLoop_trace (p k : ℕ) (ls : List Large) (t : Trace) :
    live (reuseLoop p k ls t).2 = live t ∧
      (Sound t → (∀ l ∈ ls, ∃ r ∈ live t, l.region.Within r) →
        Sound (reuseLoop p k ls t).2) := by
  induction ls generalizing k t with
  | nil => exact ⟨rfl, fun h _ => h⟩
  | cons l ls ih =>
    simp only [reuseLoop]
    split_ifs
    · exact ⟨rfl, fun h hc => ⟨hc l (by simp), h⟩⟩
    · exact ⟨rfl, fun h hc => ⟨hc l (by simp), h⟩⟩
    · obtain ⟨hl, hs⟩ := ih (k + 1) (touch t l.addr sizeofPoolLarge)
      exact ⟨hl, fun h hc => hs ⟨hc l (by simp), h⟩ fun m hm => hc m (by simp [hm])⟩

/-- `ngx_pfree` frees the region of the first node that holds `p`. -/
lemma pfreeLoop_spec (p : ℕ) (ls : List Large) (t : Trace) :
    ∃ t', live t' = live t ∧
      (Sound t → (∀ l ∈ ls, ∃ r ∈ live t, l.region.Within r) → Sound t') ∧
      (pfreeLoop p ls t = (false, ls, t') ∨ ∃ l₁ n l₂, ls = l₁ ++ n :: l₂ ∧ n.alloc = p ∧
        pfreeLoop p ls t = (true, l₁ ++ ⟨n.addr, 0⟩ :: l₂, ngxFree t' p)) := by
  induction ls generalizing t with
  | nil => exact ⟨t, rfl, fun h _ => h, .inl rfl⟩
  | cons l ls ih =>
    by_cases hp : p = l.alloc
    · refine ⟨touch t l.addr sizeofPoolLarge, rfl, fun h hc => ⟨hc l (by simp), h⟩,
        .inr ⟨[], l, ls, rfl, hp.symm, ?_⟩⟩
      simp [pfreeLoop, hp]
    · obtain ⟨t', hl, hs, hcase⟩ := ih (touch t l.addr sizeofPoolLarge)
      refine ⟨t', hl, fun h hc => hs ⟨hc l (by simp), h⟩ fun m hm => hc m (by simp [hm]), ?_⟩
      rcases hcase with hr | ⟨l₁, n, l₂, rfl, hn, hr⟩
      · exact .inl (by simp [pfreeLoop, hp, hr])
      · exact .inr ⟨l :: l₁, n, l₂, rfl, hn, by simp [pfreeLoop, hp, hr]⟩

/-- The first loop of reset and destroy frees the regions of the nodes, and
reads each node while its block, whose base is in `base`, is live. -/
lemma freeLarge_spec {base : List ℕ} (ls : List Large) (t : Trace) (hs : Sound t)
    (ho : ((live t).map Region.addr).Perm ((ls.map Large.alloc).filter (· ≠ 0) ++ base))
    (hc : ∀ l ∈ ls, ∃ r ∈ live t, r.addr ∈ base ∧ l.region.Within r) :
    Sound (freeLarge ls t) ∧ ((live (freeLarge ls t)).map Region.addr).Perm base ∧
      ∀ r ∈ live t, r.addr ∈ base → r ∈ live (freeLarge ls t) := by
  induction ls generalizing t with
  | nil => exact ⟨hs, ho, fun r hr _ => hr⟩
  | cons l ls ih =>
    obtain ⟨r, hr, hb, hw⟩ := hc l (by simp)
    have hread : Sound (touch t l.addr sizeofPoolLarge) := ⟨⟨r, hr, hw⟩, hs⟩
    simp only [freeLarge]
    split_ifs with h0
    · refine ih _ ⟨⟨r, hr, hw⟩, hread⟩ ?_ fun m hm => hc m (by simp [hm])
      simpa [h0] using ho
    · have hpn : decide (l.alloc ≠ 0) = true := by simpa using h0
      simp only [List.map_cons, List.filter_cons, hpn, if_true, List.cons_append] at ho
      have hnodup := List.nodup_cons.mp (ho.nodup_iff.mp hs.nodup_addr)
      have hstay : ∀ r ∈ live t, r.addr ∈ base →
          r ∈ live (ngxFree (touch t l.addr sizeofPoolLarge) l.alloc) := by
        intro r hr hb
        refine mem_live_free.mpr ⟨hr, fun he => hnodup.1 ?_⟩
        exact List.mem_append_right _ (he ▸ hb)
      have hmem : l.alloc ∈ (live t).map Region.addr := ho.mem_iff.mpr (by simp)
      obtain ⟨q, hq, he⟩ := List.mem_map.mp hmem
      have hfree : Sound (ngxFree (touch t l.addr sizeofPoolLarge) l.alloc) :=
        ⟨.inr ⟨q, hq, he⟩, hread⟩
      obtain ⟨hs', ho', hk'⟩ := ih
        (touch (ngxFree (touch t l.addr sizeofPoolLarge) l.alloc) l.addr sizeofPoolLarge)
        ⟨⟨r, hstay r hr hb, hw⟩, hfree⟩ (hread.perm_free ho) fun m hm => by
          obtain ⟨r, hr, hb, hw⟩ := hc m (by simp [hm])
          exact ⟨r, hstay r hr hb, hb, hw⟩
      exact ⟨hs', ho', fun r hr hb => hk' r (hstay r hr hb) hb⟩

lemma rewindLoop_eq (bs : List Block) (t : Trace) :
    (rewindLoop bs t).1 =
      bs.map fun b => { b with last := wadd b.addr sizeofPool, failed := 0 } := by
  induction bs generalizing t with
  | nil => rfl
  | cons b bs ih => simp [rewindLoop, ih]

lemma rewindLoop_trace (bs : List Block) (t : Trace) :
    live (rewindLoop bs t).2 = live t ∧
      (Sound t → (∀ b ∈ bs, ∃ r ∈ live t, Region.Within ⟨b.addr, sizeofPoolData⟩ r) →
        Sound (rewindLoop bs t).2) := by
  induction bs generalizing t with
  | nil => exact ⟨rfl, fun h _ => h⟩
  | cons b bs ih =>
    obtain ⟨hl, hs⟩ := ih (touch t b.addr sizeofPoolData)
    exact ⟨hl, fun h hc => hs ⟨hc b (by simp), h⟩ fun c hm => hc c (by simp [hm])⟩

/-- The blocks go one after another; the header of the next one is read after
the one before it is gone. -/
lemma freeBlocks_spec (p : Block) (ns : List Block) (t : Trace) (hs : Sound t)
    (ho : ((live t).map Region.addr).Perm ((p :: ns).map Block.addr))
    (hc : ∀ b ∈ p :: ns, ∃ r ∈ live t, r.addr = b.addr ∧
      Region.Within ⟨b.addr, sizeofPoolData⟩ r) :
    Sound (freeBlocks p ns t) ∧ live (freeBlocks p ns t) = [] := by
  induction ns generalizing p t with
  | nil =>
    obtain ⟨r, hr, he, -⟩ := hc p (by simp)
    refine ⟨⟨.inr ⟨r, hr, he⟩, hs⟩, ?_⟩
    exact List.map_eq_nil_iff.mp (hs.perm_free ho).eq_nil
  | cons n ns ih =>
    obtain ⟨r, hr, he, -⟩ := hc p (by simp)
    have hfree : Sound (ngxFree t p.addr) := ⟨.inr ⟨r, hr, he⟩, hs⟩
    have hnodup := List.nodup_cons.mp (ho.nodup_iff.mp hs.nodup_addr)
    have hrest : ∀ b ∈ n :: ns, ∃ r ∈ live (ngxFree t p.addr), r.addr = b.addr ∧
        Region.Within ⟨b.addr, sizeofPoolData⟩ r := by
      intro b hb
      obtain ⟨r, hr, he, hw⟩ := hc b (List.mem_cons_of_mem _ hb)
      refine ⟨r, mem_live_free.mpr ⟨hr, fun hp => hnodup.1 ?_⟩, he, hw⟩
      rw [← hp, he]
      exact List.mem_map_of_mem hb
    obtain ⟨q, hq, -, hw⟩ := hrest n (by simp)
    exact ih n (touch (ngxFree t p.addr) n.addr sizeofPoolData) ⟨⟨q, hq, hw⟩, hfree⟩
      (hs.perm_free ho) hrest

end ShareBike.MemoryPool
