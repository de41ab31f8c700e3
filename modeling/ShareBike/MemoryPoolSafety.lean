import ShareBike.MemoryPoolOwnership

/-!
# Safety of the memory pool

Every operation keeps the invariant, whatever `malloc` answers. Hence the ranges
that the caller holds are exclusive at every moment of a pool's life, and when
the pool is destroyed each region has been freed exactly once.
-/
namespace ShareBike.MemoryPool
open ShareBike.Lib

variable {A : Malloc} {S : ℕ} {s : State}

lemma dvd_of_malloc {t : Trace} {n p : ℕ} (h : A.malloc t n = some p) : ngxAlignment ∣ p :=
  Nat.dvd_trans (by decide) (A.aligned t n p h)

/-- The end of a large request: `p` waits for a node and gets it, or is freed. -/
lemma Inv.pushLarge {p n : ℕ} (h : Inv S [p] s) (hlive : ⟨p, n⟩ ∈ live s.world.trace)
    (hd : ∀ y ∈ s.allocs, Disjoint (Region.bytes ⟨p, n⟩) y.region.bytes)
    (ha : ngxAlignment ∣ p) (aligned : Bool) :
    Inv S [] (s.hold (MemoryPool.pushLarge A s.world p) n aligned) := by
  have hsize : sizeofPoolLarge + sizeofPool ≤ S := le_trans (by decide) h.chain.min_size
  obtain ⟨hnone, hsome⟩ := ngxPallocSmall_spec (A := A) h.chain hsize true
  simp only [MemoryPool.pushLarge]
  rcases hr : ngxPallocSmall A s.world sizeofPoolLarge true with ⟨_ | l, w⟩
  · exact (h.of_unchanged (hnone w hr)).free
  · obtain ⟨hc, -⟩ := hsome l w hr
    obtain ⟨hinv, hdis⟩ := h.carve hc
    obtain ⟨new, hnew, -⟩ := hc.added
    have hlive' : ⟨p, n⟩ ∈ live w.trace := hnew ▸ List.mem_append_right _ hlive
    have hnull : p ≠ 0 := h.chain.sound.live_apart.2 _ hlive
    have hcover : ∃ r ∈ live w.trace, Region.Within ⟨l, sizeofPoolLarge⟩ r := by
      obtain ⟨b, hb, hw⟩ := hinv.chain.within hc.got
      exact ⟨_, (hinv.chain.block b hb).live, hw⟩
    have hread := (hinv.access hcover).access_pool
    have hpush := hread.push (l := l) hnull hc.got fun y hy => hdis y (by
      simpa only [State.ranges, hc.large] using hy)
    exact hpush.hold (x := ⟨p, n, aligned⟩) ⟨hlive', _, List.mem_cons_self, rfl⟩ hd ha

lemma Inv.malloc_none (h : Inv S [] s) (n : ℕ) :
    Inv S [] ⟨{ s.world with trace := .malloc n none :: s.world.trace }, s.allocs⟩ :=
  h.of_unchanged ⟨rfl, rfl, h.chain.sound⟩

/-- An empty node is filled with the pending region. -/
lemma Inv.fill {p n : ℕ} (h : Inv S [p] s) (hlive : ⟨p, n⟩ ∈ live s.world.trace)
    (hd : ∀ y ∈ s.allocs, Disjoint (Region.bytes ⟨p, n⟩) y.region.bytes)
    (ha : ngxAlignment ∣ p) (aligned : Bool) {l₁ l₂ : List Large} {l : Large}
    (hl : s.world.pool.large = l₁ ++ l :: l₂) (hempty : l.alloc = 0) :
    Inv S [] ⟨{ s.world with pool := { s.world.pool with large := l₁ ++ ⟨l.addr, p⟩ :: l₂ } },
      ⟨p, n, aligned⟩ :: s.allocs⟩ := by
  have hnull : p ≠ 0 := h.chain.sound.live_apart.2 _ hlive
  have hrelabel := h.relabel hl p (List.Sublist.refl _) ?_ [] ?_
  · exact hrelabel.hold (x := ⟨p, n, aligned⟩) ⟨hlive, ⟨l.addr, p⟩, by simp, rfl⟩ hd ha
  · intro x _ hx
    rw [hempty]
    exact h.chain.sound.live_apart.2 _ hx.1
  · exact (Pool.held_fill hl hempty hnull).symm

/-- The search for an empty node reads live nodes only. -/
lemma Inv.reuse {pending : List ℕ} (h : Inv S pending s) (p : ℕ) :
    Inv S pending
      ⟨⟨s.world.pool, (reuseLoop p 0 s.world.pool.large s.world.trace).2⟩, s.allocs⟩ ∧
    live (reuseLoop p 0 s.world.pool.large s.world.trace).2 = live s.world.trace := by
  obtain ⟨hlive, hsound⟩ := reuseLoop_trace p 0 s.world.pool.large s.world.trace
  have hcover : ∀ l ∈ s.world.pool.large, ∃ r ∈ live s.world.trace, l.region.Within r := by
    intro l hl
    obtain ⟨r, hr, -, hw⟩ := h.node_covered hl
    exact ⟨r, hr, hw⟩
  exact ⟨h.of_unchanged ⟨rfl, hlive, hsound h.chain.sound hcover⟩, hlive⟩

lemma Inv.pallocLarge (h : Inv S [] s) (n : ℕ) (aligned : Bool) :
    Inv S [] (s.hold (ngxPallocLarge A s.world n) n aligned) := by
  simp only [ngxPallocLarge, ngxAlloc]
  cases hm : A.malloc s.world.trace n with
  | none => exact h.malloc_none n
  | some p =>
    dsimp only
    obtain ⟨hinv, hdis⟩ := h.malloc hm
    have ha := dvd_of_malloc hm
    have hd : ∀ y ∈ s.allocs, Disjoint (Region.bytes ⟨p, n⟩) y.region.bytes :=
      fun y hy => hdis _ (List.mem_append_right _ (List.mem_map_of_mem hy))
    obtain ⟨hscan, hlive⟩ := hinv.access_pool.reuse p
    have hmem : ⟨p, n⟩ ∈ live (reuseLoop p 0 s.world.pool.large
        (touch (.malloc n (some p) :: s.world.trace) s.world.pool.addr sizeofPool)).2 := by
      rw [hlive]
      exact List.mem_cons_self
    rcases hr : reuseLoop p 0 s.world.pool.large (touch (.malloc n (some p) :: s.world.trace)
      s.world.pool.addr sizeofPool) with ⟨_ | large, t'⟩
    · rw [hr] at hscan hmem
      exact hscan.pushLarge hmem hd ha aligned
    · rw [hr] at hscan hmem
      obtain ⟨l₁, l, l₂, hl, hempty, rfl⟩ := reuseLoop_some hr
      exact hscan.fill hmem hd ha aligned hl hempty

lemma Inv.pallocWith (h : Inv S [] s) (n : ℕ) (align : Bool) :
    Inv S [] (s.hold (MemoryPool.pallocWith A s.world n align) n align) := by
  have hread := h.access_pool
  simp only [MemoryPool.pallocWith]
  split_ifs with hn
  · have hsize : n + sizeofPool ≤ S := (Nat.add_le_add_right hn _).trans h.chain.max_le
    obtain ⟨hnone, hsome⟩ := ngxPallocSmall_spec (A := A) hread.chain hsize align
    set w₀ : World := { s.world with
      trace := touch s.world.trace s.world.pool.addr sizeofPool } with hw₀
    rcases hr : ngxPallocSmall A w₀ n align with ⟨_ | m, w⟩
    · exact hread.of_unchanged (hnone w hr)
    · obtain ⟨hc, ha⟩ := hsome m w hr
      exact hread.small (x := ⟨m, n, align⟩) hc ha
  · exact hread.pallocLarge n align

lemma Inv.pmemalign (h : Inv S [] s) (n alignment : ℕ) :
    Inv S [] (s.hold (ngxPmemalign A s.world n alignment) n false) := by
  simp only [ngxPmemalign, ngxAlloc]
  cases hm : A.malloc s.world.trace n with
  | none => exact h.malloc_none n
  | some p =>
    obtain ⟨hinv, hdis⟩ := h.malloc hm
    exact hinv.pushLarge List.mem_cons_self
      (fun y hy => hdis _ (List.mem_append_right _ (List.mem_map_of_mem hy)))
      (dvd_of_malloc hm) false

lemma Inv.pcalloc (h : Inv S [] s) (n : ℕ) :
    Inv S [] (s.hold (ngxPcalloc A s.world n) n true) := by
  have hpalloc : Inv S [] (s.hold (ngxPalloc A s.world n) n true) := h.pallocWith n true
  simp only [ngxPcalloc]
  rcases hr : ngxPalloc A s.world n with ⟨_ | p, w⟩
  · rw [hr] at hpalloc
    exact hpalloc
  · rw [hr] at hpalloc
    exact hpalloc.access (hpalloc.covered (x := ⟨p, n⟩)
      (List.mem_append_right _ List.mem_cons_self))

/-- `ngx_pfree` takes the region from its node and frees it; `p` may be any
pointer, and a null pointer changes nothing. -/
lemma Inv.pfree (h : Inv S [] s) (p : ℕ) : Inv S [] (s.apply A (.pfree p)) := by
  have hread := h.access_pool
  obtain ⟨t, hlive, hsound, hcase⟩ := pfreeLoop_spec p s.world.pool.large
    (touch s.world.trace s.world.pool.addr sizeofPool)
  have hcover : ∀ l ∈ s.world.pool.large, ∃ r ∈ live s.world.trace, l.region.Within r := by
    intro l hl
    obtain ⟨r, hr, -, hw⟩ := h.node_covered hl
    exact ⟨r, hr, hw⟩
  have hscan : Inv S [] ⟨⟨s.world.pool, t⟩, s.allocs⟩ :=
    hread.of_unchanged ⟨rfl, hlive, hsound hread.chain.sound hcover⟩
  rcases hcase with hr | ⟨l₁, l, l₂, hl, rfl, hr⟩
  · have hrc : ¬ NGX_DECLINED = NGX_OK := by decide
    simp only [State.apply, ngxPfree, hr, Bool.false_eq_true, if_false, hrc]
    exact hscan
  · simp only [State.apply, ngxPfree, hr, if_true]
    have hsub : (s.allocs.filter (·.ptr ≠ l.alloc)).Sublist s.allocs := List.filter_sublist
    have hne : ∀ x ∈ s.allocs.filter (·.ptr ≠ l.alloc), x.ptr ≠ l.alloc := fun x hx => by
      simpa using (List.mem_filter.mp hx).2
    by_cases h0 : l.alloc = 0
    · have hrelabel := hscan.relabel hl 0 hsub (fun x hx _ => hne x hx) []
        (by simp [Pool.held, hl, h0])
      refine hrelabel.of_unchanged ⟨rfl, ?_, .inl h0, hrelabel.chain.sound⟩
      refine List.filter_eq_self.mpr fun r hr => ?_
      have hnull := hrelabel.chain.sound.live_apart.2 r hr
      simpa [h0] using hnull
    · refine (hscan.relabel hl 0 hsub (fun x hx _ => hne x hx) [l.alloc] ?_).free
      have hfill := Pool.held_fill (q := l.alloc) (l := ⟨l.addr, 0⟩)
        (p := { s.world.pool with large := l₁ ++ ⟨l.addr, 0⟩ :: l₂ }) rfl rfl h0
      simp only [← hl] at hfill
      exact hfill

/-- After the first loop of reset and destroy only the blocks are live. -/
lemma Inv.freeLarge (h : Inv S [] s) :
    let t := MemoryPool.freeLarge s.world.pool.large
      (touch s.world.trace s.world.pool.addr sizeofPool)
    Sound t ∧ ((live t).map Region.addr).Perm (s.world.pool.blocks.map Block.addr) ∧
      ∀ b ∈ s.world.pool.blocks, ⟨b.addr, S⟩ ∈ live t := by
  have hread := h.access_pool
  have howned := hread.owned
  rw [List.nil_append] at howned
  obtain ⟨hs, ho, hk⟩ := freeLarge_spec s.world.pool.large _ hread.chain.sound
    (howned.trans List.perm_append_comm) fun l hl => hread.node_covered hl
  exact ⟨hs, ho, fun b hb => hk _ (h.chain.block b hb).live (List.mem_map_of_mem hb)⟩

lemma Inv.reset (h : Inv S [] s) : Inv S [] (s.apply A .reset) := by
  obtain ⟨hs, ho, hk⟩ := h.freeLarge
  set t := MemoryPool.freeLarge s.world.pool.large
    (touch s.world.trace s.world.pool.addr sizeofPool) with ht
  obtain ⟨hlive, hsound⟩ := rewindLoop_trace s.world.pool.blocks t
  have hmin := h.chain.min_size
  rw [ngxMinPoolSize_eq] at hmin
  have hcover : ∀ b ∈ s.world.pool.blocks,
      ∃ r ∈ live t, Region.Within ⟨b.addr, sizeofPoolData⟩ r := by
    intro b hb
    refine ⟨_, hk b hb, ?_⟩
    simp only [Region.Within, sizeofPoolData]
    omega
  have haddr : ((rewindLoop s.world.pool.blocks t).1).map Block.addr =
      s.world.pool.blocks.map Block.addr := by
    simp [rewindLoop_eq, Function.comp_def]
  have hpool : ∃ r ∈ live t, Region.Within ⟨s.world.pool.addr, sizeofPool⟩ r := by
    obtain ⟨b, bs, hb, ha⟩ := h.chain.blocks_eq
    refine ⟨_, hk b (by simp [hb]), ?_⟩
    simp only [Region.Within, ha, sizeofPool]
    omega
  change Inv S [] ⟨⟨{ s.world.pool with
    blocks := (rewindLoop s.world.pool.blocks t).1
    current := s.world.pool.addr
    large := [] }, touch (rewindLoop s.world.pool.blocks t).2 s.world.pool.addr sizeofPool⟩, []⟩
  refine ⟨⟨h.chain.min_size, h.chain.dvd_size, ?_, ?_, haddr ▸ h.chain.nodup, ?_,
    h.chain.max_le, hlive ▸ hpool, hsound hs hcover⟩, ?_, by simp, by simp,
    by simp [State.ranges], by simp⟩
  · rw [← List.head?_map, haddr, List.head?_map]
    exact h.chain.first
  · intro b hb
    obtain ⟨c, hc, rfl⟩ : ∃ c ∈ s.world.pool.blocks,
        { c with last := wadd c.addr sizeofPool, failed := 0 } = b := by
      simpa [rewindLoop_eq] using hb
    have hok := h.chain.block c hc
    have hend := hok.endp_eq
    have hlt := hok.endp_lt
    have hsize : sizeofPool = 56 := rfl
    have hlast : wadd c.addr sizeofPool = c.addr + sizeofPool := wadd_of_lt (by omega)
    refine ⟨hlive ▸ hk c hc, hok.aligned, hend, hlt, ?_, ?_⟩
    · simp only [hlast]
      exact Nat.add_le_add_left (headerSize_le_sizeofPool _ _) _
    · simp only [hlast]
      omega
  · obtain ⟨b, bs, hb, ha⟩ := h.chain.blocks_eq
    change s.world.pool.addr ∈ _
    rw [haddr, hb, ← ha]
    exact List.mem_map_of_mem List.mem_cons_self
  · change ((live (rewindLoop s.world.pool.blocks t).2).map Region.addr).Perm _
    rw [hlive]
    refine ho.trans (List.Perm.of_eq ?_)
    simp [Pool.held, haddr]

/-- Each operation keeps the invariant. -/
lemma Inv.apply (h : Inv S [] s) (op : Op) : Inv S [] (s.apply A op) := by
  cases op with
  | palloc n => exact h.pallocWith n true
  | pnalloc n => exact h.pallocWith n false
  | pcalloc n => exact h.pcalloc n
  | pmemalign n alignment => exact h.pmemalign n alignment
  | pfree p => exact h.pfree p
  | reset => exact h.reset

/-- A new pool is one block with its header. -/
lemma Inv.create {pagesize : ℕ} {p : Pool} {t : Trace} (hmin : ngxMinPoolSize ≤ S)
    (hdvd : ngxAlignment ∣ S) (hp : ngxCreatePool A pagesize [] S = (some p, t)) :
    Inv S [] ⟨⟨p, t⟩, []⟩ := by
  obtain ⟨a, hm, rfl, rfl⟩ := ngxCreatePool_some hp
  have hfresh := A.fresh _ _ _ hm
  have hbound := A.bounded _ _ _ hm
  have hmin' := hmin
  rw [ngxMinPoolSize_eq] at hmin'
  have hsize : sizeofPool = 56 := rfl
  have hlast : wadd a sizeofPool = a + sizeofPool := wadd_of_lt (by omega)
  have hend : wadd a S = a + S := wadd_of_lt hbound
  have hrest : wsub S sizeofPool = S - sizeofPool := wsub_of_le (by omega) (by omega)
  refine ⟨⟨hmin, hdvd, rfl, ?_, by simp, by simp, ?_, ?_⟩, by simp [Pool.held, live],
    by simp, by simp, by simp [State.ranges], by simp⟩
  · intro b hb
    rw [List.mem_singleton] at hb
    subst hb
    refine ⟨by simp, A.aligned _ _ _ hm, hend, hend ▸ hbound, ?_, ?_⟩
    · simp only [hlast, headerSize, if_true, le_refl]
    · simp only [hlast, hend]
      omega
  · simp only [hrest]
    split_ifs with hlt <;> omega
  · refine ⟨⟨_, List.mem_cons_self, ?_⟩, hfresh, trivial⟩
    simp only [Region.Within]
    omega

lemma inv_of_reachable {pagesize : ℕ} (hmin : ngxMinPoolSize ≤ S) (hdvd : ngxAlignment ∣ S)
    (h : (system A pagesize S).Reachable s) : Inv S [] s := by
  refine h.invariant ?_ ?_
  · rintro ⟨⟨p, t⟩, allocs⟩ ⟨hp, ht, rfl⟩
    exact Inv.create hmin hdvd (Prod.ext hp ht)
  · rintro s op s' hs - hstep
    cases hstep
    exact hs.apply op

/-- Destroying the pool frees every region that is left. -/
lemma Inv.destroy (h : Inv S [] s) :
    Sound (ngxDestroyPool s.world) ∧ live (ngxDestroyPool s.world) = [] := by
  obtain ⟨hs, ho, hk⟩ := h.freeLarge
  obtain ⟨b, bs, hb, -⟩ := h.chain.blocks_eq
  have hmin := h.chain.min_size
  rw [ngxMinPoolSize_eq] at hmin
  have hcover : ∀ c ∈ b :: bs, ∃ r ∈ live (MemoryPool.freeLarge s.world.pool.large
      (touch s.world.trace s.world.pool.addr sizeofPool)), r.addr = c.addr ∧
      Region.Within ⟨c.addr, sizeofPoolData⟩ r := by
    intro c hc
    refine ⟨_, hk c (hb ▸ hc), rfl, ?_⟩
    simp only [Region.Within, sizeofPoolData]
    omega
  obtain ⟨r, hr, -, hw⟩ := hcover b (by simp)
  simp only [ngxDestroyPool, hb]
  exact freeBlocks_spec b bs _ ⟨⟨r, hr, hw⟩, hs⟩ (hb ▸ ho) hcover

/-- At every moment of a pool's life each range that the caller holds lies in one
live region, meets no other such range, no block header and no node of the
large list, and is aligned if it came from `ngx_palloc` or `ngx_pcalloc`. -/
theorem ranges_exclusive (A : Malloc) (pagesize S : ℕ) (hmin : ngxMinPoolSize ≤ S)
    (hdvd : ngxAlignment ∣ S) {s : State} (h : (system A pagesize S).Reachable s) :
    (∀ x ∈ s.allocs, (∃ r ∈ live s.world.trace, x.region.Within r) ∧
      (∃ b bs, s.world.pool.blocks = b :: bs ∧
        Disjoint x.region.bytes (Region.bytes ⟨b.addr, sizeofPool⟩) ∧
        ∀ c ∈ bs, Disjoint x.region.bytes (Region.bytes ⟨c.addr, sizeofPoolData⟩)) ∧
      (∀ l ∈ s.world.pool.large, Disjoint x.region.bytes l.region.bytes) ∧
      (x.aligned = true → ngxAlignment ∣ x.ptr)) ∧
    s.allocs.Pairwise fun x y => Disjoint x.region.bytes y.region.bytes := by
  have hinv := inv_of_reachable hmin hdvd h
  obtain ⟨-, hallocs, hcross⟩ := List.pairwise_append.mp hinv.disjoint
  rw [List.pairwise_map] at hallocs
  refine ⟨fun x hx => ?_, hallocs⟩
  have hmem : x.region ∈ s.ranges := List.mem_append_right _ (List.mem_map_of_mem hx)
  refine ⟨hinv.covered hmem, ?_, ?_, hinv.aligned x hx⟩
  · obtain ⟨b, bs, hb, ha⟩ := hinv.chain.blocks_eq
    have hheader := fun c hc => hinv.header_disjoint hx (c := c) hc
    have hnodup := hinv.chain.nodup
    rw [hb] at hheader hnodup
    refine ⟨b, bs, hb, ?_, fun c hc => ?_⟩
    · simpa only [headerSize, ha, if_true] using hheader b (by simp)
    · have hne : c.addr ≠ s.world.pool.addr := by
        rw [← ha]
        intro he
        exact (List.nodup_cons.mp hnodup).1 (he ▸ List.mem_map_of_mem hc)
      simpa only [headerSize, hne, if_false] using hheader c (List.mem_cons_of_mem _ hc)
  · intro l hl
    exact (hcross _ (List.mem_map_of_mem hl) _ (List.mem_map_of_mem hx)).symm

/-- A `malloc` that never hands out an address again. -/
def bump : Malloc := Allocator.bump ngxPoolAlignment (by decide)

/-- A pool of 96 bytes, as `bump` makes it. -/
def smallPool : State :=
  ⟨⟨⟨16, [⟨16, 72, 112, 0⟩], 40, 16, []⟩, [.access ⟨16, 56⟩, .malloc 96 (some 16)]⟩, []⟩

lemma smallPool_init : (system bump 4096 96).init smallPool := by
  refine ⟨?_, ?_, rfl⟩ <;> decide +kernel

theorem ranges_exclusive_bump :
    ∃ s, (system bump 4096 96).exec smallPool [.pmemalign 200 64, .palloc 24] = some s ∧
      s.allocs = [⟨88, 24, true⟩, ⟨128, 200, false⟩] ∧
      s.allocs.Pairwise fun x y => Disjoint x.region.bytes y.region.bytes :=
  ⟨_, rfl, by decide +kernel, (ranges_exclusive bump 4096 96 (by decide) (by decide)
    (.step (.step (.init smallPool_init) trivial rfl) trivial rfl)).2⟩

/-- When the pool is destroyed, every region that `malloc` returned has been
freed once, and every header or node was accessed while its region was live. -/
theorem regions_freed_once (A : Malloc) (pagesize S : ℕ) (hmin : ngxMinPoolSize ≤ S)
    (hdvd : ngxAlignment ∣ S) {s : State} (h : (system A pagesize S).Reachable s) :
    (∀ pre post n a, (ngxDestroyPool s.world).reverse = pre ++ .malloc n (some a) :: post →
      (untilReturned a post).count (.free a) = 1) ∧
    ∀ pre post x, (ngxDestroyPool s.world).reverse = pre ++ .access x :: post →
      ∃ r ∈ live pre.reverse, x.Within r := by
  obtain ⟨hs, hend⟩ := (inv_of_reachable hmin hdvd h).destroy
  exact ⟨fun _ _ _ _ ht => hs.freed_once hend ht, fun _ _ _ ht => hs.access_live ht⟩

theorem regions_freed_once_bump :
    ∃ s, (system bump 4096 96).exec smallPool [.pmemalign 200 64, .palloc 24, .pfree 128] =
        some s ∧ (ngxDestroyPool s.world).head? = some (.free 16) ∧
      ∀ pre post n a, (ngxDestroyPool s.world).reverse = pre ++ .malloc n (some a) :: post →
        (untilReturned a post).count (.free a) = 1 :=
  ⟨_, rfl, by decide +kernel, (regions_freed_once bump 4096 96 (by decide) (by decide)
    (.step (.step (.step (.init smallPool_init) trivial rfl) trivial rfl) trivial rfl)).1⟩

end ShareBike.MemoryPool
