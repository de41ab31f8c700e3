import ShareBike.Lib.FirstFit
import ShareBike.MemoryPoolCounters

/-!
# Reusing a pool after a reset

Seen from its requests a chain is a list of bins of `S` bytes. The first block offers
what lies behind `ngx_pool_t`, a block that `ngx_palloc_block` made what lies behind
`ngx_pool_data_t`; but `ngx_reset_pool` rewinds every block to behind `ngx_pool_t`. A
sequence of requests that filled a pool therefore need not fit again.
-/
namespace ShareBike.MemoryPool
open ShareBike.Lib

variable {A : Malloc} {S : ℕ} {s : State} {w : World} {base : ℕ} {t : Trace} {b : Block}

/-- A request of `ngx_palloc` or `ngx_pnalloc`. -/
structure SmallRequest where
  size : ℕ
  align : Bool
  deriving DecidableEq

namespace SmallRequest

def run (A : Malloc) (w : World) (r : SmallRequest) : Option ℕ × World :=
  if r.align then ngxPalloc A w r.size else ngxPnalloc A w r.size

lemma run_eq (A : Malloc) (w : World) (r : SmallRequest) :
    r.run A w = pallocWith A w r.size r.align := by
  cases hr : r.align <;> simp [run, hr, ngxPalloc, ngxPnalloc]

/-- The request as an item; positions are counted from the start of a block. -/
def item (r : SmallRequest) : Item where
  size := r.size
  start used :=
    if r.align then (used + (ngxAlignment - 1)) / ngxAlignment * ngxAlignment else used

end SmallRequest

/-- The answers to a sequence of requests, and what it leaves. -/
def serve (A : Malloc) : World → List SmallRequest → List (Option ℕ) × World
  | w, [] => ([], w)
  | w, r :: rs =>
    let first := r.run A w
    let rest := serve A first.2 rs
    (first.1 :: rest.1, rest.2)

/-- How far a block is filled. -/
def Block.used (b : Block) : ℕ := b.last - b.addr

@[simp] lemma Block.miss_used (b : Block) : b.miss.used = b.used := rfl

/-- The fit test is that of a bin of `S` bytes. -/
lemma fit_eq_item (hb : BlockOk S base t b) (hdvd : ngxAlignment ∣ S) (r : SmallRequest) :
    fit b r.size r.align =
      if r.item.start b.used + r.size ≤ S then some (b.addr + r.item.start b.used)
      else none := by
  have hbounds : BlockBounds S b := ⟨hb.aligned, hb.endp_eq, hb.endp_lt, hb.last_le⟩
  have hlast := hb.last_le
  have hheader := hb.header
  have hend := hb.endp_eq
  have hlt := hb.endp_lt
  obtain ⟨q, hq⟩ := hb.aligned
  obtain ⟨k, hk⟩ := hdvd
  simp only [ngxPoolAlignment, ngxAlignment, wordSize] at hq hk hlt
  have hplace : b.place r.align = b.addr + r.item.start b.used := by
    cases hr : r.align with
    | false =>
      simp only [Block.place, SmallRequest.item, hr, Block.used, Bool.false_eq_true, if_false]
      omega
    | true =>
      have hup : alignUp b.last (2 ^ 3) = (b.last + (2 ^ 3 - 1)) / 2 ^ 3 * 2 ^ 3 :=
        alignUp_eq (by decide) (by simp only [wordSize]; omega)
      simp only [Block.place, SmallRequest.item, hr, Block.used, if_true]
      show alignUp b.last (2 ^ 3) = b.addr + (b.last - b.addr + (8 - 1)) / 8 * 8
      omega
  have hinside : b.place r.align ≤ b.endp := by
    rw [hplace, hend, Nat.add_le_add_iff_left]
    simp only [SmallRequest.item, ngxAlignment, Block.used]
    split_ifs <;> omega
  rw [fit_of_place_le hbounds hinside, hplace, hend]
  refine if_congr ?_ rfl rfl
  omega

/-- The loop of `ngx_palloc_small` is first fit. -/
lemma place_eq_smallLoop {bs : List Block} (hbs : ∀ b ∈ bs, BlockOk S base t b)
    (hdvd : ngxAlignment ∣ S) (r : SmallRequest) (u : Trace) :
    FirstFit.place S r.item (bs.map Block.used) =
      (smallLoop r.size r.align bs u).1.map fun _ =>
        (smallLoop r.size r.align bs u).2.1.map Block.used := by
  induction bs generalizing u with
  | nil => rfl
  | cons b bs ih =>
    have hb := hbs b List.mem_cons_self
    have hfit := fit_eq_item hb hdvd r
    rw [List.map_cons]
    by_cases hroom : r.item.start b.used + r.size ≤ S
    · rw [if_pos hroom] at hfit
      have hlt := hb.endp_lt
      have hend := hb.endp_eq
      have hadd : wadd (b.addr + r.item.start b.used) r.size =
          b.addr + r.item.start b.used + r.size := wadd_of_lt (by omega)
      rw [FirstFit.place_cons_of_fits hroom]
      simp only [smallLoop, hfit, Option.map_some, List.map_cons]
      refine congrArg some (congrArg (· :: _) ?_)
      show r.item.start b.used + r.size =
        wadd (b.addr + r.item.start b.used) r.size - b.addr
      omega
    · rw [if_neg hroom] at hfit
      rw [FirstFit.place_cons_of_full hroom,
        ih (fun c hc => hbs c (List.mem_cons_of_mem _ hc)) (touch u b.addr sizeofPoolData)]
      simp only [smallLoop, hfit, Option.map_map]
      rfl

lemma mallocs_smallLoop (n : ℕ) (align : Bool) (bs : List Block) (t : Trace) :
    mallocs (smallLoop n align bs t).2.2 = mallocs t := by
  induction bs generalizing t with
  | nil => rfl
  | cons b bs ih =>
    simp only [smallLoop]
    cases fit b n align with
    | some m => rfl
    | none => exact ih _

lemma mallocs_blockLoop (bs : List Block) (current : ℕ) (t : Trace) :
    mallocs (blockLoop bs current t).2.2 = mallocs t := by
  induction bs generalizing current t with
  | nil => rfl
  | cons p bs ih =>
    cases bs with
    | nil => rfl
    | cons q bs => exact ih _ _

lemma mallocs_ngxPallocBlock (w : World) (n : ℕ) :
    mallocs (ngxPallocBlock A w n).2.trace = mallocs w.trace + 1 := by
  simp only [ngxPallocBlock, ngxAlloc]
  cases A.malloc (touch w.trace w.pool.addr sizeofPool) w.pool.psize with
  | none => rfl
  | some new =>
    show mallocs (blockLoop _ _ _).2.2 = _
    rw [mallocs_blockLoop]
    rfl

/-- The part of a run that a request of at most `max` bytes takes. -/
lemma SmallRequest.run_small (w : World) {r : SmallRequest} (hr : r.size ≤ w.pool.max) :
    r.run A w = ngxPallocSmall A { w with trace := touch w.trace w.pool.addr sizeofPool }
      r.size r.align := by
  rw [r.run_eq, pallocWith]
  exact if_pos hr

lemma Inv.serve_one {allocs : List Alloc} (h : Inv S [] ⟨w, allocs⟩) (r : SmallRequest) :
    ∃ allocs', Inv S [] ⟨(r.run A w).2, allocs'⟩ := by
  have hnext := h.pallocWith (A := A) r.size r.align
  rw [r.run_eq]
  rcases hr : MemoryPool.pallocWith A w r.size r.align with ⟨_ | p, w'⟩ <;> rw [hr] at hnext <;>
    exact ⟨_, hnext⟩

lemma Inv.chained_world {allocs : List Alloc} (h : Inv S [] ⟨w, allocs⟩) : Chained w.pool :=
  h.chained

/-- A request that fits is placed without `malloc`. -/
lemma ngxPallocSmall_placed (hp : Chained w.pool)
    (hbs : ∀ b ∈ w.pool.walk, BlockOk S base t b) (hdvd : ngxAlignment ∣ S) {r : SmallRequest}
    {bins : List ℕ} (hplace : FirstFit.place S r.item (w.pool.walk.map Block.used) = some bins) :
    ∃ m w', ngxPallocSmall A w r.size r.align = (some m, w') ∧
      mallocs w'.trace = mallocs w.trace ∧ w'.pool.walk.map Block.used = bins ∧
      ∀ c, Counts c w.pool → Counts c w'.pool := by
  have hmallocs := mallocs_smallLoop r.size r.align w.pool.walk
    (touch w.trace w.pool.addr sizeofPool)
  rw [place_eq_smallLoop hbs hdvd r (touch w.trace w.pool.addr sizeofPool)] at hplace
  simp only [ngxPallocSmall]
  rcases hloop : smallLoop r.size r.align w.pool.walk (touch w.trace w.pool.addr sizeofPool)
    with ⟨_ | m, bs, u⟩ <;> rw [hloop] at hplace hmallocs
  · cases hplace
  · cases hplace
    obtain ⟨l₁, b, l₂, hwalk, -, -, rfl⟩ := smallLoop_some hloop
    refine ⟨m, _, rfl, hmallocs, ?_, fun c hc => hc.of_fitted hp hwalk⟩
    rw [(hp.split_fitted hwalk rfl).2]

/-- A request that does not fit goes to `ngx_palloc_block`, which calls `malloc` once. -/
lemma ngxPallocSmall_full (hbs : ∀ b ∈ w.pool.walk, BlockOk S base t b)
    (hdvd : ngxAlignment ∣ S) {r : SmallRequest}
    (hplace : FirstFit.place S r.item (w.pool.walk.map Block.used) = none) :
    ∃ u, mallocs u = mallocs w.trace ∧
      ngxPallocSmall A w r.size r.align = ngxPallocBlock A { w with trace := u } r.size := by
  have hmallocs := mallocs_smallLoop r.size r.align w.pool.walk
    (touch w.trace w.pool.addr sizeofPool)
  rw [place_eq_smallLoop hbs hdvd r (touch w.trace w.pool.addr sizeofPool)] at hplace
  simp only [ngxPallocSmall]
  rcases hloop : smallLoop r.size r.align w.pool.walk (touch w.trace w.pool.addr sizeofPool)
    with ⟨_ | m, bs, u⟩ <;> rw [hloop] at hplace hmallocs
  · exact ⟨u, hmallocs, rfl⟩
  · cases hplace

/-- A new block holds the request behind `ngx_pool_data_t`. -/
lemma ngxPallocBlock_some (h : Bounds S w.pool) {n m : ℕ} {w' : World}
    (hsize : n + sizeofPool ≤ S) (hr : ngxPallocBlock A w n = (some m, w')) :
    ∃ new u, new.failed = 0 ∧ new.used = sizeofPoolData + n ∧ w'.pool = { w.pool with
      blocks := w.pool.before ++ (blockLoop w.pool.walk w.pool.current u).1 ++ [new]
      current := (blockLoop w.pool.walk w.pool.current u).2.1 } := by
  simp only [ngxPallocBlock, ngxAlloc, h.psize_eq] at hr
  cases hm : A.malloc (touch w.trace w.pool.addr sizeofPool) S with
  | none => simp [hm] at hr
  | some new =>
    simp only [hm, Prod.mk.injEq, Option.some.injEq] at hr
    obtain ⟨-, rfl⟩ := hr
    have hbound := A.bounded _ _ _ hm
    have hsizes : sizeofPool = 56 ∧ sizeofPoolData = 32 := ⟨rfl, rfl⟩
    have hmin := h.min_size
    rw [ngxMinPoolSize_eq] at hmin
    obtain ⟨hplace, -⟩ := place_in_new (A.aligned _ _ _ hm) (by rw [ngxMinPoolSize_eq]; omega)
    refine ⟨_, _, rfl, ?_, rfl⟩
    show wadd (alignUp (wadd new sizeofPoolData) ngxAlignment) n - new = _
    rw [hplace, wadd_of_lt (by omega)]
    omega

/-- A chain as its requests see it: how far the blocks from `current` on are filled, and
the counters of all blocks. -/
structure Layout where
  used : List ℕ
  misses : Misses

namespace Layout

/-- A new pool is one block with its header. -/
def fresh : Layout := ⟨[sizeofPool], ⟨[], []⟩⟩

/-- The request goes into the first block with room, or a block is added for it. -/
def add (S : ℕ) (l : Layout) (r : SmallRequest) : Layout :=
  match FirstFit.place S r.item l.used with
  | some used => { l with used := used }
  | none =>
    ⟨l.used.drop ((l.misses.older.map (· + 1)).takeWhile (5 < ·)).length ++
      [sizeofPoolData + r.size], l.misses.grow⟩

def blocks (l : Layout) : ℕ := l.misses.skipped.length + l.used.length

end Layout

/-- The number of blocks that a new pool has after serving the requests. -/
def blocksFor (S : ℕ) (requests : List SmallRequest) : ℕ :=
  (requests.foldl (Layout.add S) Layout.fresh).blocks

/-- The pool has this layout. -/
structure Lays (l : Layout) (p : Pool) : Prop where
  sorted : l.misses.Sorted 0
  counts : Counts l.misses p
  used : p.walk.map Block.used = l.used

variable {allocs : List Alloc} {l : Layout} {r : SmallRequest}

lemma Inv.bounds (h : Inv S [] s) : Bounds S s.world.pool :=
  ⟨h.chain.min_size, h.chain.first, fun b hb =>
    ⟨(h.chain.block b hb).aligned, (h.chain.block b hb).endp_eq, (h.chain.block b hb).endp_lt,
      (h.chain.block b hb).last_le⟩, h.chain.max_le⟩

lemma Inv.walk_ok (h : Inv S [] ⟨w, allocs⟩) :
    ∀ b ∈ w.pool.walk, BlockOk S w.pool.addr w.trace b :=
  fun b hb => h.chain.block b (Pool.mem_of_walk hb)

lemma Lays.add (h : Lays l w.pool) (hinv : Inv S [] ⟨w, allocs⟩)
    (hsize : r.size ≤ w.pool.max) (hr : (r.run A w).1 ≠ none) :
    Lays (l.add S r) (r.run A w).2.pool := by
  set w₀ : World := { w with trace := touch w.trace w.pool.addr sizeofPool } with hw₀
  have hinv₀ : Inv S [] ⟨w₀, allocs⟩ := hinv.access_pool
  have hdvd := hinv.chain.dvd_size
  rw [SmallRequest.run_small w hsize] at hr ⊢
  simp only [Layout.add]
  cases hplace : FirstFit.place S r.item l.used with
  | some used =>
    obtain ⟨m, w', hrun, -, hused, hcounts⟩ := ngxPallocSmall_placed (A := A) (w := w₀)
      hinv₀.chained_world hinv₀.walk_ok hdvd (h.used.symm ▸ hplace)
    rw [hrun]
    exact ⟨h.sorted, hcounts _ h.counts, hused⟩
  | none =>
    obtain ⟨u, -, hrun⟩ := ngxPallocSmall_full (A := A) (w := w₀) hinv₀.walk_ok hdvd
      (h.used.symm ▸ hplace)
    rw [hrun] at hr ⊢
    rcases hblock : ngxPallocBlock A { w₀ with trace := u } r.size with ⟨_ | m, w'⟩
    · exact absurd (congrArg Prod.fst hblock) hr
    have hroom : r.size + sizeofPool ≤ S :=
      (Nat.add_le_add_right hsize _).trans hinv.chain.max_le
    obtain ⟨new, v, hnew, hused, hpool⟩ := ngxPallocBlock_some
      (w := { w₀ with trace := u }) hinv₀.bounds hroom hblock
    obtain ⟨hi, lo, z, hwalk, hhi, hlo, -, hfront, -⟩ := h.counts.split h.sorted
    obtain ⟨-, hsnd⟩ := hinv.chained_world.split_added hwalk hhi hlo new v hpool
    refine ⟨h.sorted.grow (Nat.zero_le _), ?_, ?_⟩
    · show Counts l.misses.grow w'.pool
      rw [hpool]
      exact h.counts.of_added h.sorted hinv.chained_world hnew v
    · -- the blocks left behind are those in front
      show w'.pool.walk.map Block.used = _
      have hlength : hi.length = ((l.misses.older.map (· + 1)).takeWhile (5 < ·)).length := by
        rw [← hfront, List.length_map, List.length_map]
      rw [hsnd, ← h.used, hwalk, ← hlength]
      simp [hused, Function.comp_def]

lemma Lays.blocks_length {p : Pool} (h : Lays l p) : p.blocks.length = l.blocks := by
  rw [← p.before_append_walk, List.length_append, Layout.blocks, h.counts.length_before,
    ← h.used, List.length_map]

lemma SmallRequest.run_max (hsize : r.size ≤ w.pool.max) :
    (r.run A w).2.pool.max = w.pool.max := by
  rw [SmallRequest.run_small w hsize]
  exact (ngxPallocSmall_served _ _ _).max_eq

/-- While every request is served, the layout follows the sizes. -/
lemma Lays.serve {requests : List SmallRequest} (h : Lays l w.pool)
    (hinv : Inv S [] ⟨w, allocs⟩) (hsize : ∀ r ∈ requests, r.size ≤ w.pool.max)
    (hserved : ∀ a ∈ (serve A w requests).1, a ≠ none) :
    Lays (requests.foldl (Layout.add S) l) (MemoryPool.serve A w requests).2.pool := by
  induction requests generalizing l w allocs with
  | nil => exact h
  | cons r rs ih =>
    obtain ⟨hr, hrs⟩ := List.forall_mem_cons.mp hserved
    have hle := hsize r List.mem_cons_self
    obtain ⟨allocs', hinv'⟩ := hinv.serve_one (A := A) r
    refine ih (h.add hinv hle hr) hinv' ?_ hrs
    intro q hq
    rw [SmallRequest.run_max hle]
    exact hsize q (List.mem_cons_of_mem _ hq)

lemma mallocs_ngxPallocSmall_le (w : World) (n : ℕ) (align : Bool) :
    mallocs w.trace ≤ mallocs (ngxPallocSmall A w n align).2.trace := by
  have hmallocs := mallocs_smallLoop n align w.pool.walk (touch w.trace w.pool.addr sizeofPool)
  simp only [ngxPallocSmall]
  rcases hloop : smallLoop n align w.pool.walk (touch w.trace w.pool.addr sizeofPool)
    with ⟨_ | m, bs, u⟩ <;> rw [hloop] at hmallocs
  · have hblock := mallocs_ngxPallocBlock (A := A) { w with trace := u } n
    show mallocs w.trace ≤ mallocs (ngxPallocBlock A { w with trace := u } n).2.trace
    rw [hblock]
    exact (Nat.le_of_eq hmallocs.symm).trans (Nat.le_succ _)
  · exact Nat.le_of_eq hmallocs.symm

lemma mallocs_serve_le {requests : List SmallRequest}
    (hsize : ∀ r ∈ requests, r.size ≤ w.pool.max) :
    mallocs w.trace ≤ mallocs (serve A w requests).2.trace := by
  induction requests generalizing w with
  | nil => exact Nat.le_refl _
  | cons r rs ih =>
    have hle := hsize r List.mem_cons_self
    have hone : mallocs w.trace ≤ mallocs (r.run A w).2.trace := by
      rw [SmallRequest.run_small w hle]
      exact mallocs_ngxPallocSmall_le
        { w with trace := touch w.trace w.pool.addr sizeofPool } r.size r.align
    refine hone.trans (ih fun q hq => ?_)
    rw [SmallRequest.run_max hle]
    exact hsize q (List.mem_cons_of_mem _ hq)

/-- Every request is served, and `malloc` is not called. -/
def ServedInPlace (A : Malloc) (w : World) (requests : List SmallRequest) : Prop :=
  (∀ a ∈ (serve A w requests).1, a ≠ none) ∧
    mallocs (serve A w requests).2.trace = mallocs w.trace

instance (A : Malloc) (w : World) (requests : List SmallRequest) :
    Decidable (ServedInPlace A w requests) :=
  inferInstanceAs (Decidable ((∀ a ∈ (serve A w requests).1, a ≠ none) ∧
    mallocs (serve A w requests).2.trace = mallocs w.trace))

/-- A pool serves a sequence of requests from the blocks it has exactly if first fit
packs them into these blocks. -/
lemma servedInPlace_iff {requests : List SmallRequest} (hinv : Inv S [] ⟨w, allocs⟩)
    (hsize : ∀ r ∈ requests, r.size ≤ w.pool.max) :
    ServedInPlace A w requests ↔
      (FirstFit.pack S (requests.map SmallRequest.item)
        (w.pool.walk.map Block.used)).isSome := by
  induction requests generalizing w allocs with
  | nil => exact ⟨fun _ => rfl, fun _ => ⟨by simp [MemoryPool.serve], rfl⟩⟩
  | cons r rs ih =>
    have hle := hsize r List.mem_cons_self
    have hsize' : ∀ q ∈ rs, q.size ≤ (r.run A w).2.pool.max := by
      intro q hq
      rw [SmallRequest.run_max hle]
      exact hsize q (List.mem_cons_of_mem _ hq)
    obtain ⟨allocs', hinv'⟩ := hinv.serve_one (A := A) r
    set w₀ : World := { w with trace := touch w.trace w.pool.addr sizeofPool } with hw₀
    have hinv₀ : Inv S [] ⟨w₀, allocs⟩ := hinv.access_pool
    have hrun : r.run A w = ngxPallocSmall A w₀ r.size r.align := SmallRequest.run_small w hle
    rw [List.map_cons]
    cases hplace : FirstFit.place S r.item (w.pool.walk.map Block.used) with
    | some bins =>
      obtain ⟨m, w', hsmall, hmallocs, hused, -⟩ := ngxPallocSmall_placed (A := A) (w := w₀)
        hinv₀.chained_world hinv₀.walk_ok hinv.chain.dvd_size hplace
      rw [hsmall] at hrun
      rw [hrun] at hinv' hsize'
      have hmallocs' : mallocs w'.trace = mallocs w.trace := hmallocs
      rw [FirstFit.pack_cons_of_placed hplace, ← hused, ← ih hinv' hsize']
      simp only [ServedInPlace, MemoryPool.serve, hrun, hmallocs', List.forall_mem_cons]
      simp
    | none =>
      obtain ⟨u, hu, hsmall⟩ := ngxPallocSmall_full (A := A) (w := w₀) hinv₀.walk_ok
        hinv.chain.dvd_size hplace
      rw [FirstFit.pack_cons_of_full hplace]
      refine iff_of_false ?_ (by simp)
      rintro ⟨-, hsame⟩
      have hmore := mallocs_serve_le (A := A) hsize'
      have hblock := mallocs_ngxPallocBlock (A := A) { w₀ with trace := u } r.size
      rw [← hsmall, ← hrun] at hblock
      have hone : mallocs (r.run A w).2.trace = mallocs w.trace + 1 :=
        hblock.trans (congrArg (· + 1) hu)
      have htotal : mallocs (MemoryPool.serve A (r.run A w).2 rs).2.trace = mallocs w.trace :=
        hsame
      omega

lemma used_rewind (hb : BlockOk S base t b) (hmin : ngxMinPoolSize ≤ S) :
    b.rewind.used = sizeofPool := by
  have hend := hb.endp_eq
  have hlt := hb.endp_lt
  have hsize : sizeofPool = 56 := rfl
  rw [ngxMinPoolSize_eq] at hmin
  show wadd b.addr sizeofPool - b.addr = sizeofPool
  rw [wadd_of_lt (by omega)]
  omega

/-- The requests fit into so many blocks that are used up to behind `ngx_pool_t`. -/
def FitsRewound (S blocks : ℕ) (requests : List SmallRequest) : Prop :=
  (FirstFit.pack S (requests.map SmallRequest.item)
    (List.replicate blocks sizeofPool)).isSome

instance (S blocks : ℕ) (requests : List SmallRequest) :
    Decidable (FitsRewound S blocks requests) := inferInstanceAs (Decidable (_ = true))

lemma servedInPlace_reset_iff {requests : List SmallRequest} (hinv : Inv S [] ⟨w, allocs⟩)
    (hsize : ∀ r ∈ requests, r.size ≤ w.pool.max) :
    ServedInPlace A (ngxResetPool w) requests ↔
      FitsRewound S w.pool.blocks.length requests := by
  have hreset : Inv S [] ⟨ngxResetPool w, []⟩ := hinv.apply (A := A) .reset
  have hused : (ngxResetPool w).pool.walk.map Block.used =
      List.replicate w.pool.blocks.length sizeofPool := by
    rw [hinv.chained_world.split_reset.2, List.map_map]
    refine List.eq_replicate_iff.mpr ⟨by simp, fun n hn => ?_⟩
    obtain ⟨b, hb, rfl⟩ := List.mem_map.mp hn
    exact used_rewind (hinv.chain.block b hb) hinv.chain.min_size
  rw [servedInPlace_iff hreset hsize, hused, FitsRewound]

lemma Inv.serve (requests : List SmallRequest) (hinv : Inv S [] ⟨w, allocs⟩) :
    ∃ allocs', Inv S [] ⟨(MemoryPool.serve A w requests).2, allocs'⟩ := by
  induction requests generalizing w allocs with
  | nil => exact ⟨_, hinv⟩
  | cons r rs ih =>
    obtain ⟨_, hinv'⟩ := hinv.serve_one (A := A) r
    exact ih hinv'

lemma serve_max {requests : List SmallRequest} (hsize : ∀ r ∈ requests, r.size ≤ w.pool.max) :
    (serve A w requests).2.pool.max = w.pool.max := by
  induction requests generalizing w with
  | nil => rfl
  | cons r rs ih =>
    have hle := hsize r List.mem_cons_self
    refine (ih fun q hq => ?_).trans (SmallRequest.run_max hle)
    rw [SmallRequest.run_max hle]
    exact hsize q (List.mem_cons_of_mem _ hq)

lemma Lays.create {pagesize : ℕ} {p : Pool} (hmin : ngxMinPoolSize ≤ S)
    (hdvd : ngxAlignment ∣ S) (hp : ngxCreatePool A pagesize [] S = (some p, t)) :
    Lays Layout.fresh p := by
  have hinv := Inv.create hmin hdvd hp
  obtain ⟨b, hblocks, hfst, hsnd, hb⟩ := create_split hp
  have hfailed : b.failed = 0 := by
    rw [← hb]
    rfl
  have hused : b.used = sizeofPool := by
    rw [← hb]
    exact used_rewind (hinv.chain.block b (by rw [hblocks]; exact List.mem_cons_self)) hmin
  refine ⟨⟨by simp [Layout.fresh], by simp [Layout.fresh], .nil⟩, ⟨?_, ?_⟩, ?_⟩
  · rw [hfst]
    rfl
  · rw [hsnd, List.map_singleton, hfailed]
    rfl
  · rw [hsnd, List.map_singleton, hused]
    rfl

/-- After a reset the sequence that filled a new pool is served again without `malloc`
exactly if first fit packs it into the blocks of the pool when all of them begin behind
`ngx_pool_t`. Where the first run was served, their number follows from the sizes. -/
theorem reset_reuses_iff (A : Malloc) (pagesize S : ℕ) (hmin : ngxMinPoolSize ≤ S)
    (hdvd : ngxAlignment ∣ S) {p : Pool} {t : Trace}
    (hp : ngxCreatePool A pagesize [] S = (some p, t)) (requests : List SmallRequest)
    (hsize : ∀ r ∈ requests, r.size ≤ p.max) :
    (ServedInPlace A (ngxResetPool (serve A ⟨p, t⟩ requests).2) requests ↔
      FitsRewound S (serve A ⟨p, t⟩ requests).2.pool.blocks.length requests) ∧
    ((∀ a ∈ (serve A ⟨p, t⟩ requests).1, a ≠ none) →
      (ServedInPlace A (ngxResetPool (serve A ⟨p, t⟩ requests).2) requests ↔
        FitsRewound S (blocksFor S requests) requests)) := by
  have hinv : Inv S [] ⟨⟨p, t⟩, []⟩ := Inv.create hmin hdvd hp
  obtain ⟨allocs, hfilled⟩ := hinv.serve (A := A) requests
  have hmax : ∀ r ∈ requests, r.size ≤ (serve A ⟨p, t⟩ requests).2.pool.max := by
    rw [serve_max hsize]
    exact hsize
  have hiff := servedInPlace_reset_iff (A := A) hfilled hmax
  refine ⟨hiff, fun hserved => ?_⟩
  have hlays := (Lays.create hmin hdvd hp).serve hinv hsize hserved
  rw [hiff, hlays.blocks_length]
  rfl

/-- Each of them fills what a block has after a reset. -/
def pairRequests : List SmallRequest := [⟨40, true⟩, ⟨40, false⟩]

/-- The second request takes a second block, and both blocks are used again. -/
theorem reset_reuses_iff_two :
    (serve bump smallPool.world pairRequests).2.pool.blocks.length = 2 ∧
    ServedInPlace bump (ngxResetPool (serve bump smallPool.world pairRequests).2)
      pairRequests :=
  ⟨by decide +kernel, ((reset_reuses_iff bump 4096 96 (by decide) (by decide)
    (Prod.ext smallPool_init.1 smallPool_init.2.1) pairRequests (by decide)).2
    (by decide +kernel)).mpr (by decide +kernel)⟩

/-- 24 bytes go behind 40 in the second block. -/
def fillingRequests : List SmallRequest := [⟨40, true⟩, ⟨40, true⟩, ⟨24, true⟩]

/-- After the reset the second block has room for 40 bytes only. -/
theorem reset_loses_room :
    ngxCreatePool bump 4096 [] 96 = (some smallPool.world.pool, smallPool.world.trace) ∧
    (∀ r ∈ fillingRequests, r.size ≤ smallPool.world.pool.max) ∧
    (∀ a ∈ (serve bump smallPool.world fillingRequests).1, a ≠ none) ∧
    ¬ ServedInPlace bump (ngxResetPool (serve bump smallPool.world fillingRequests).2)
      fillingRequests := by
  decide +kernel

end ShareBike.MemoryPool
