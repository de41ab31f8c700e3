import ShareBike.MemoryPoolLayout

/-!
# The invariant of a pool's whole life

Every live region is a block or the region of exactly one node of the large
list, and the ranges of the nodes and of the allocations that the caller holds
are pairwise disjoint. Within an operation a region may be live before a node
points to it; such regions are listed as pending.
-/
namespace ShareBike.MemoryPool
open ShareBike.Lib

variable {A : Malloc} {S : ℕ}

def Large.region (l : Large) : Region := ⟨l.addr, sizeofPoolLarge⟩

/-- The bases of the regions that the pool has to free. -/
def Pool.held (p : Pool) : List ℕ :=
  p.blocks.map Block.addr ++ (p.large.map Large.alloc).filter (· ≠ 0)

/-- The ranges in use: nodes of the large list and the caller's allocations. -/
def State.ranges (s : State) : List Region :=
  s.world.pool.large.map Large.region ++ s.allocs.map Alloc.region

/-- The allocation is a region of its own, remembered by a node. -/
def IsLarge (w : World) (x : Region) : Prop :=
  x ∈ live w.trace ∧ ∃ l ∈ w.pool.large, l.alloc = x.addr

structure Inv (S : ℕ) (pending : List ℕ) (s : State) : Prop where
  chain : ChainOk S s.world
  owned : ((live s.world.trace).map Region.addr).Perm (pending ++ s.world.pool.held)
  nodes : ∀ l ∈ s.world.pool.large, InPool s.world.pool l.region
  allocs : ∀ x ∈ s.allocs, InPool s.world.pool x.region ∨ IsLarge s.world x.region
  disjoint : s.ranges.Pairwise fun x y => Disjoint x.bytes y.bytes
  aligned : ∀ x ∈ s.allocs, x.aligned = true → ngxAlignment ∣ x.ptr

variable {pending : List ℕ} {s : State}

lemma ChainOk.nodup_owned {w : World} (h : ChainOk S w)
    (ho : ((live w.trace).map Region.addr).Perm (pending ++ w.pool.held)) :
    (pending ++ w.pool.held).Nodup := ho.nodup_iff.mp h.sound.nodup_addr

/-- A region of its own does not meet the blocks. -/
lemma IsLarge.disjoint {w : World} (h : ChainOk S w)
    (ho : ((live w.trace).map Region.addr).Perm (pending ++ w.pool.held)) {x y : Region}
    (hx : InPool w.pool x) (hy : IsLarge w y) : Disjoint x.bytes y.bytes := by
  obtain ⟨b, hb, hin⟩ := h.within hx
  obtain ⟨hlive, l, hl, he⟩ := hy
  have hnull : y.addr ≠ 0 := h.sound.live_apart.2 y hlive
  have hnodup := (List.nodup_append.mp (h.nodup_owned ho)).2.1
  have hne : b.addr ≠ y.addr := by
    refine (List.nodup_append.mp hnodup).2.2 _ (List.mem_map_of_mem hb) _ ?_
    exact List.mem_filter.mpr ⟨he ▸ List.mem_map_of_mem hl, by simpa using hnull⟩
  have hapart := h.sound.apart_of_ne (h.block b hb).live hlive fun hr =>
    hne (congrArg Region.addr hr)
  exact hin.disjoint (Region.Within.refl y) hapart

lemma Inv.of_unchanged (h : Inv S pending s) {w : World} (hw : Unchanged s.world w) :
    Inv S pending ⟨w, s.allocs⟩ := by
  obtain ⟨⟨p, t⟩, allocs⟩ := s
  obtain ⟨p', t'⟩ := w
  obtain ⟨rfl, hl, hs⟩ := hw
  exact ⟨h.chain.of_trace hl hs, hl ▸ h.owned, h.nodes, fun x hx =>
    (h.allocs x hx).imp id fun hy => ⟨hl ▸ hy.1, hy.2⟩, h.disjoint, h.aligned⟩

/-- Looking at live memory changes nothing. -/
lemma Inv.access (h : Inv S pending s) {a n : ℕ}
    (hc : ∃ r ∈ live s.world.trace, Region.Within ⟨a, n⟩ r) :
    Inv S pending ⟨{ s.world with trace := touch s.world.trace a n }, s.allocs⟩ :=
  h.of_unchanged ⟨rfl, rfl, hc, h.chain.sound⟩

/-- Taking a range from the blocks keeps everything but the list of ranges. -/
lemma Inv.carve (h : Inv S pending s) {w : World} {x : Region} (hc : Carve S s.world w x) :
    Inv S pending ⟨w, s.allocs⟩ ∧
      ∀ y ∈ s.ranges, Disjoint x.bytes y.bytes := by
  obtain ⟨new, hlive, hblocks⟩ := hc.added
  have howned : ((live w.trace).map Region.addr).Perm (pending ++ w.pool.held) := by
    rw [hlive, Pool.held, hblocks, hc.large, List.map_append, ← List.append_assoc,
      ← List.append_assoc]
    have hperm := h.owned.append_left (new.map Region.addr)
    refine hperm.trans ?_
    rw [Pool.held, ← List.append_assoc, ← List.append_assoc]
    refine List.Perm.append_right _ ?_
    rw [List.append_assoc]
    exact List.perm_append_comm
  have hlarge : ∀ y, IsLarge s.world y → IsLarge w y := by
    rintro y ⟨hy, hn⟩
    exact ⟨hlive ▸ List.mem_append_right _ hy, hc.large ▸ hn⟩
  refine ⟨⟨hc.chain, howned, ?_, ?_, ?_, h.aligned⟩, ?_⟩
  · intro l hl
    exact hc.keep _ (h.nodes l (hc.large ▸ hl))
  · intro y hy
    exact (h.allocs y hy).imp (hc.keep _) (hlarge _)
  · simpa only [State.ranges, hc.large] using h.disjoint
  · intro y hy
    rcases List.mem_append.mp hy with hy | hy
    · obtain ⟨l, hl, rfl⟩ := List.mem_map.mp hy
      exact (hc.disjoint _ (h.nodes l hl)).symm
    · obtain ⟨z, hz, rfl⟩ := List.mem_map.mp hy
      rcases h.allocs z hz with hz' | hz'
      · exact (hc.disjoint _ hz').symm
      · exact IsLarge.disjoint hc.chain howned hc.got (hlarge _ hz')

/-- The caller receives a range of the blocks. -/
lemma Inv.small (h : Inv S pending s) {w : World} {x : Alloc} (hc : Carve S s.world w x.region)
    (ha : x.aligned = true → ngxAlignment ∣ x.ptr) : Inv S pending ⟨w, x :: s.allocs⟩ := by
  obtain ⟨hinv, hdis⟩ := h.carve hc
  refine ⟨hinv.chain, hinv.owned, hinv.nodes, ?_, ?_, ?_⟩
  · rintro y hy
    rcases List.mem_cons.mp hy with rfl | hy
    · exact .inl hc.got
    · exact hinv.allocs y hy
  · have hp : ((⟨w, x :: s.allocs⟩ : State).ranges).Perm (x.region :: s.ranges) := by
      simp only [State.ranges, hc.large, List.map_cons]
      exact List.perm_middle
    exact hp.symm.pairwise (List.pairwise_cons.mpr ⟨hdis, h.disjoint⟩) fun h' => h'.symm
  · rintro y hy
    rcases List.mem_cons.mp hy with rfl | hy
    · exact ha
    · exact h.aligned y hy

/-- Every range in use lies in a live region. -/
lemma Inv.covered (h : Inv S pending s) {x : Region} (hx : x ∈ s.ranges) :
    ∃ r ∈ live s.world.trace, x.Within r := by
  have hblock : InPool s.world.pool x → ∃ r ∈ live s.world.trace, x.Within r := by
    intro hin
    obtain ⟨b, hb, hw⟩ := h.chain.within hin
    exact ⟨_, (h.chain.block b hb).live, hw⟩
  rcases List.mem_append.mp hx with hx | hx
  · obtain ⟨l, hl, rfl⟩ := List.mem_map.mp hx
    exact hblock (h.nodes l hl)
  · obtain ⟨y, hy, rfl⟩ := List.mem_map.mp hx
    rcases h.allocs y hy with hin | hlarge
    · exact hblock hin
    · exact ⟨_, hlarge.1, Region.Within.refl _⟩

/-- No range of the caller meets the header of a block. -/
lemma Inv.header_disjoint (h : Inv S pending s) {x : Alloc} (hx : x ∈ s.allocs) {c : Block}
    (hc : c ∈ s.world.pool.blocks) : Disjoint x.region.bytes
      (Region.bytes ⟨c.addr, headerSize s.world.pool.addr c.addr⟩) := by
  have hok := h.chain.block c hc
  have hheader : Region.Within ⟨c.addr, headerSize s.world.pool.addr c.addr⟩ ⟨c.addr, S⟩ := by
    have hlo := hok.header
    have hhi := hok.last_le
    rw [hok.endp_eq] at hhi
    simp only [Region.Within]
    omega
  -- a range in the same block lies behind the header, any other in another region
  have hother : ∀ {r : Region}, r ∈ live s.world.trace → r.addr ≠ c.addr →
      x.region.Within r → Disjoint x.region.bytes
        (Region.bytes ⟨c.addr, headerSize s.world.pool.addr c.addr⟩) := by
    intro r hr hne hw
    refine hw.disjoint hheader (h.chain.sound.apart_of_ne hr hok.live ?_)
    exact fun he => hne (congrArg Region.addr he)
  rcases h.allocs x hx with hin | hlarge
  · obtain ⟨b, hb, hlo, hhi⟩ := hin
    by_cases hbc : b.addr = c.addr
    · rw [Region.disjoint_iff]
      rw [hbc] at hlo
      simp only
      omega
    · have hbok := h.chain.block b hb
      refine hother hbok.live hbc ?_
      have hlast := hbok.last_le
      rw [hbok.endp_eq] at hlast
      simp only [Region.Within]
      omega
  · refine hother hlarge.1 ?_ (Region.Within.refl _)
    have hmem := (List.nodup_append.mp (h.chain.nodup_owned h.owned)).2.1
    obtain ⟨hlive, l, hl, he⟩ := hlarge
    have hnull : x.region.addr ≠ 0 := h.chain.sound.live_apart.2 _ hlive
    refine ((List.nodup_append.mp hmem).2.2 _ (List.mem_map_of_mem hc) _ ?_).symm
    exact List.mem_filter.mpr ⟨he ▸ List.mem_map_of_mem hl, by simpa using hnull⟩

/-- A region of its own arrives, and waits for its node. -/
lemma Inv.malloc (h : Inv S [] s) {n p : ℕ} (hm : A.malloc s.world.trace n = some p) :
    Inv S [p] ⟨{ s.world with trace := .malloc n (some p) :: s.world.trace }, s.allocs⟩ ∧
      ∀ y ∈ s.ranges, Disjoint (Region.bytes ⟨p, n⟩) y.bytes := by
  have hfresh := A.fresh _ _ _ hm
  have hmono : ∀ r ∈ live s.world.trace, r ∈ (⟨p, n⟩ :: live s.world.trace : List Region) :=
    fun r hr => List.mem_cons_of_mem _ hr
  refine ⟨⟨⟨h.chain.min_size, h.chain.dvd_size, h.chain.first, ?_, h.chain.nodup,
    h.chain.current, h.chain.max_le, hfresh, h.chain.sound⟩, ?_, h.nodes, ?_, h.disjoint,
    h.aligned⟩, ?_⟩
  · intro b hb
    exact { h.chain.block b hb with live := hmono _ (h.chain.block b hb).live }
  · simpa using h.owned
  · intro y hy
    exact (h.allocs y hy).imp id fun hl => ⟨hmono _ hl.1, hl.2⟩
  · intro y hy
    obtain ⟨r, hr, hw⟩ := h.covered hy
    exact (Region.Within.refl ⟨p, n⟩).disjoint hw (hfresh.2 r hr)

/-- A pending region is given back. -/
lemma Inv.free {p : ℕ} (h : Inv S [p] s) :
    Inv S [] ⟨{ s.world with trace := ngxFree s.world.trace p }, s.allocs⟩ := by
  have hnodup := h.chain.nodup_owned h.owned
  rw [List.singleton_append, List.nodup_cons] at hnodup
  have hp : p ∈ (live s.world.trace).map Region.addr :=
    h.owned.mem_iff.mpr (by simp)
  have hblock : ∀ b ∈ s.world.pool.blocks, b.addr ≠ p := by
    rintro b hb rfl
    exact hnodup.1 (List.mem_append_left _ (List.mem_map_of_mem hb))
  have hlive : ∀ r ∈ live s.world.trace, r.addr ≠ p →
      r ∈ live (ngxFree s.world.trace p) := fun r hr hne => mem_live_free.mpr ⟨hr, hne⟩
  refine ⟨⟨h.chain.min_size, h.chain.dvd_size, h.chain.first, ?_, h.chain.nodup,
    h.chain.current, h.chain.max_le, ?_, h.chain.sound⟩, ?_, h.nodes, ?_, h.disjoint, h.aligned⟩
  · intro b hb
    exact { h.chain.block b hb with live := hlive _ (h.chain.block b hb).live (hblock b hb) }
  · obtain ⟨r, hr, he⟩ := List.mem_map.mp hp
    exact .inr ⟨r, hr, he⟩
  · exact h.chain.sound.perm_free h.owned
  · intro x hx
    refine (h.allocs x hx).imp id ?_
    rintro ⟨hl, l, hmem, he⟩
    have hnull : x.region.addr ≠ 0 := h.chain.sound.live_apart.2 _ hl
    refine ⟨hlive _ hl fun hxp => hnodup.1 ?_, l, hmem, he⟩
    refine List.mem_append_right _ (List.mem_filter.mpr ⟨?_, ?_⟩)
    · rw [← hxp, ← he]
      exact List.mem_map_of_mem hmem
    · rw [← hxp]
      simpa using hnull

end ShareBike.MemoryPool
