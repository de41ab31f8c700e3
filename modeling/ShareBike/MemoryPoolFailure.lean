import ShareBike.MemoryPoolSafety

/-!
# Requests that fail

A request fails because `malloc` fails: for the region of a large request, or for the
block that is to hold its node, or for the block of a small request. Nothing is
stored in the pool before the last of these calls, and a region that waits for its
node is given back.
-/
namespace ShareBike.MemoryPool
open ShareBike.Lib

variable {A : Malloc} {S : ℕ} {s : State}

/-- The requests of the pool's interface. -/
inductive Request
  | palloc (size : ℕ)
  | pnalloc (size : ℕ)
  | pcalloc (size : ℕ)
  | pmemalign (size alignment : ℕ)
  deriving DecidableEq

def Request.run (A : Malloc) (w : World) : Request → Option ℕ × World
  | palloc size => ngxPalloc A w size
  | pnalloc size => ngxPnalloc A w size
  | pcalloc size => ngxPcalloc A w size
  | pmemalign size alignment => ngxPmemalign A w size alignment

/-- The pointer that the caller gets is `NULL`. -/
def Null (p : Option ℕ) : Prop := p.getD 0 = 0

instance (p : Option ℕ) : Decidable (Null p) := inferInstanceAs (Decidable (_ = _))

/-- A request either returns no pointer and leaves everything as it was, or returns
one that is not null. -/
inductive Restores (w : World) : Option ℕ × World → Prop
  | failed {w' : World} : Unchanged w w' → Restores w (none, w')
  | served {w' : World} {p : ℕ} : p ≠ 0 → Restores w (some p, w')

lemma Restores.unchanged {w : World} {r : Option ℕ × World} (h : Restores w r)
    (hnull : Null r.1) : Unchanged w r.2 := by
  cases h with
  | failed hw => exact hw
  | served hp => exact absurd hnull hp

/-- The memory that was only looked at does not count. -/
lemma Restores.of_live {w : World} {t : Trace} {r : Option ℕ × World}
    (hl : live t = live w.trace) (h : Restores { w with trace := t } r) : Restores w r := by
  cases h with
  | failed hw => exact .failed ⟨hw.pool, hw.live.trans hl, hw.sound⟩
  | served hp => exact .served hp

lemma ne_zero_of_inPool {p : Pool} {x : Region} (hx : InPool p x) : x.addr ≠ 0 := by
  obtain ⟨b, -, hlo, -⟩ := hx
  have hheader := sizeofPoolData_le_headerSize p.addr b.addr
  have hsize : sizeofPoolData = 32 := rfl
  omega

lemma restores_small {w : World} (h : ChainOk S w) {size : ℕ} (hsize : size + sizeofPool ≤ S)
    (align : Bool) : Restores w (ngxPallocSmall A w size align) := by
  obtain ⟨hnone, hsome⟩ := ngxPallocSmall_spec (A := A) h hsize align
  rcases hr : ngxPallocSmall A w size align with ⟨_ | m, w'⟩
  · exact .failed (hnone w' hr)
  · exact .served (ne_zero_of_inPool (hsome m w' hr).1.got)

/-- Freeing the region that was allocated last brings the live regions back. -/
lemma live_free_fresh {t t' : Trace} {p n : ℕ} (hfresh : Fresh t ⟨p, n⟩)
    (hlive : live t' = ⟨p, n⟩ :: live t) : live (ngxFree t' p) = live t := by
  have hothers : (live t).filter (fun r => r.addr ≠ p) = live t := by
    refine List.filter_eq_self.mpr fun r hr => ?_
    have hne : p ≠ r.addr := (hfresh.2 r hr).addr_ne
    simpa using hne.symm
  show (live t').filter (fun r => r.addr ≠ p) = live t
  rw [hlive, List.filter_cons_of_neg (by simp), hothers]

/-- The region `p` waits for its node; if there is no room for the node, it is freed. -/
lemma restores_pushLarge {w : World} {p n : ℕ} (h : Inv S [p] s)
    (hpool : s.world.pool = w.pool) (hfresh : Fresh w.trace ⟨p, n⟩)
    (hlive : live s.world.trace = ⟨p, n⟩ :: live w.trace) :
    Restores w (pushLarge A s.world p) := by
  have hsize : sizeofPoolLarge + sizeofPool ≤ S := le_trans (by decide) h.chain.min_size
  obtain ⟨hnone, -⟩ := ngxPallocSmall_spec (A := A) h.chain hsize true
  simp only [pushLarge]
  rcases hr : ngxPallocSmall A s.world sizeofPoolLarge true with ⟨_ | l, w'⟩
  · obtain ⟨hp, hl, hs⟩ := hnone w' hr
    have hmem : (⟨p, n⟩ : Region) ∈ live w'.trace := by
      rw [hl, hlive]
      exact List.mem_cons_self
    exact .failed ⟨hp.trans hpool, live_free_fresh hfresh (hl.trans hlive),
      .inr ⟨_, hmem, rfl⟩, hs⟩
  · exact .served hfresh.1

lemma restores_pallocLarge (h : Inv S [] s) (n : ℕ) :
    Restores s.world (ngxPallocLarge A s.world n) := by
  simp only [ngxPallocLarge, ngxAlloc]
  cases hm : A.malloc s.world.trace n with
  | none => exact .failed ⟨rfl, rfl, h.chain.sound⟩
  | some p =>
    dsimp only
    have hfresh := A.fresh _ _ _ hm
    obtain ⟨hscan, hlive⟩ := (h.malloc hm).1.access_pool.reuse p
    rcases hr : reuseLoop p 0 s.world.pool.large (touch (.malloc n (some p) :: s.world.trace)
      s.world.pool.addr sizeofPool) with ⟨_ | large, t'⟩
    · rw [hr] at hscan hlive
      exact restores_pushLarge hscan rfl hfresh hlive
    · exact .served hfresh.1

lemma restores_pallocWith (h : Inv S [] s) (n : ℕ) (align : Bool) :
    Restores s.world (pallocWith A s.world n align) := by
  have hread := h.access_pool
  simp only [pallocWith]
  refine .of_live (t := touch s.world.trace s.world.pool.addr sizeofPool) rfl ?_
  split_ifs with hn
  · have hsize : n + sizeofPool ≤ S := (Nat.add_le_add_right hn _).trans h.chain.max_le
    exact restores_small hread.chain hsize align
  · exact restores_pallocLarge hread n

lemma restores_pmemalign (h : Inv S [] s) (n alignment : ℕ) :
    Restores s.world (ngxPmemalign A s.world n alignment) := by
  simp only [ngxPmemalign, ngxAlloc]
  cases hm : A.malloc s.world.trace n with
  | none => exact .failed ⟨rfl, rfl, h.chain.sound⟩
  | some p => exact restores_pushLarge (h.malloc hm).1 rfl (A.fresh _ _ _ hm) rfl

lemma restores_pcalloc (h : Inv S [] s) (n : ℕ) :
    Restores s.world (ngxPcalloc A s.world n) := by
  have hpalloc := restores_pallocWith (A := A) h n true
  simp only [ngxPcalloc, ngxPalloc]
  rcases hr : pallocWith A s.world n true with ⟨_ | p, w⟩
  · rw [hr] at hpalloc
    exact hpalloc
  · rw [hr] at hpalloc
    cases hpalloc with
    | served hp => exact .served hp

/-- A request that returns `NULL` leaves the pool as it was before, with the same
regions allocated. -/
theorem null_leaves_pool (A : Malloc) (pagesize S : ℕ) (hmin : ngxMinPoolSize ≤ S)
    (hdvd : ngxAlignment ∣ S) {s : State} (h : (system A pagesize S).Reachable s)
    (request : Request) (hnull : Null (request.run A s.world).1) :
    (request.run A s.world).2.pool = s.world.pool ∧
      live (request.run A s.world).2.trace = live s.world.trace := by
  have hinv := inv_of_reachable hmin hdvd h
  have hrestores : Restores s.world (request.run A s.world) := by
    cases request with
    | palloc n => exact restores_pallocWith hinv n true
    | pnalloc n => exact restores_pallocWith hinv n false
    | pcalloc n => exact restores_pcalloc hinv n
    | pmemalign n alignment => exact restores_pmemalign hinv n alignment
  have hsame := hrestores.unchanged hnull
  exact ⟨hsame.pool, hsame.live⟩

/-- After the pool's first block no block is to be had. -/
def oneBlock : Malloc := bump.restrict fun t size => t.isEmpty || size ≠ 96

lemma smallPool_init_oneBlock : (system oneBlock 4096 96).init smallPool := by
  refine ⟨?_, ?_, rfl⟩ <;> decide +kernel

/-- The third large request gets its region, but there is no room for its node. -/
theorem null_leaves_pool_third :
    ∃ s, (system oneBlock 4096 96).exec smallPool [.pmemalign 200 64, .pmemalign 200 64] =
        some s ∧ Null ((Request.pmemalign 200 64).run oneBlock s.world).1 ∧
      ((Request.pmemalign 200 64).run oneBlock s.world).2.pool = s.world.pool ∧
      live ((Request.pmemalign 200 64).run oneBlock s.world).2.trace = live s.world.trace :=
  ⟨_, rfl, by decide +kernel, null_leaves_pool oneBlock 4096 96 (by decide) (by decide)
    (.step (.step (.init smallPool_init_oneBlock) trivial rfl) trivial rfl)
    (.pmemalign 200 64) (by decide +kernel)⟩

end ShareBike.MemoryPool
