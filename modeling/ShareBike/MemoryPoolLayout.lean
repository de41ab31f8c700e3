import ShareBike.MemoryPool
import Mathlib.Data.List.Perm.Basic

/-!
# The layout of a pool: ranges handed out never meet

The invariant ties the four pointers of every block to the set of ranges that
are in use. A range in a block lies between the header and `last`; a request
that a block satisfies takes the bytes from `last` on, and a request that makes
a new block takes bytes of a region that was not live before.
-/
namespace ShareBike.MemoryPool
open ShareBike.Lib

variable {A : Malloc} {S : ℕ}

@[simp] lemma live_touch (t : Trace) (a n : ℕ) : live (touch t a n) = live t := rfl

/-- What `ngx_create_pool` makes of the memory that it gets. -/
lemma ngxCreatePool_some {pagesize : ℕ} {p : Pool} {t : Trace}
    (hp : ngxCreatePool A pagesize [] S = (some p, t)) :
    ∃ a, A.malloc [] S = some a ∧ t = touch [.malloc S (some a)] a sizeofPool ∧
      p = {
        addr := a
        blocks := [⟨a, wadd a sizeofPool, wadd a S, 0⟩]
        max := if wsub S sizeofPool < wsub pagesize 1 then wsub S sizeofPool else wsub pagesize 1
        current := a
        large := [] } := by
  simp only [ngxCreatePool, ngxAlloc] at hp
  cases hm : A.malloc [] S with
  | none => simp [hm] at hp
  | some a =>
    simp only [hm, Prod.mk.injEq, Option.some.injEq] at hp
    obtain ⟨rfl, rfl⟩ := hp
    exact ⟨a, rfl, rfl, rfl⟩

/-- The bytes at the start of a block that no request may be given. -/
def headerSize (base addr : ℕ) : ℕ := if addr = base then sizeofPool else sizeofPoolData

lemma sizeofPoolData_le_headerSize (base addr : ℕ) :
    sizeofPoolData ≤ headerSize base addr := by
  unfold headerSize
  split_ifs <;> decide

lemma headerSize_le_sizeofPool (base addr : ℕ) : headerSize base addr ≤ sizeofPool := by
  unfold headerSize
  split_ifs <;> decide

/-- A block of a pool of block size `S`: a live region with its four pointers. -/
structure BlockOk (S base : ℕ) (t : Trace) (b : Block) : Prop where
  live : ⟨b.addr, S⟩ ∈ live t
  aligned : ngxPoolAlignment ∣ b.addr
  endp_eq : b.endp = b.addr + S
  endp_lt : b.endp < wordSize
  header : b.addr + headerSize base b.addr ≤ b.last
  last_le : b.last ≤ b.endp

structure ChainOk (S : ℕ) (w : World) : Prop where
  min_size : ngxMinPoolSize ≤ S
  dvd_size : ngxAlignment ∣ S
  first : w.pool.blocks.head?.map Block.addr = some w.pool.addr
  block : ∀ b ∈ w.pool.blocks, BlockOk S w.pool.addr w.trace b
  nodup : (w.pool.blocks.map Block.addr).Nodup
  current : w.pool.current ∈ w.pool.blocks.map Block.addr
  max_le : w.pool.max + sizeofPool ≤ S
  sound : Sound w.trace

/-- The range lies in the part of a block that was given away. -/
def InPool (p : Pool) (x : Region) : Prop :=
  ∃ b ∈ p.blocks, b.addr + headerSize p.addr b.addr ≤ x.addr ∧ x.addr + x.size ≤ b.last

lemma ngxMinPoolSize_eq : ngxMinPoolSize = 96 := by decide

lemma ChainOk.blocks_eq {w : World} (h : ChainOk S w) :
    ∃ b bs, w.pool.blocks = b :: bs ∧ b.addr = w.pool.addr := by
  have hf := h.first
  cases hb : w.pool.blocks with
  | nil => simp [hb] at hf
  | cons b bs => exact ⟨b, bs, rfl, by simpa [hb] using hf⟩

/-- The pool's own header is live memory. -/
lemma ChainOk.pool_covered {w : World} (h : ChainOk S w) :
    ∃ r ∈ live w.trace, Region.Within ⟨w.pool.addr, sizeofPool⟩ r := by
  obtain ⟨b, bs, hb, ha⟩ := h.blocks_eq
  have hok := h.block b (by simp [hb])
  refine ⟨_, hok.live, ?_⟩
  have hmin := h.min_size
  rw [ngxMinPoolSize_eq] at hmin
  simp only [Region.Within, ha, sizeofPool]
  omega

lemma BlockOk.covered {base : ℕ} {t : Trace} {b : Block} (h : BlockOk S base t b)
    (hS : ngxMinPoolSize ≤ S) : ∃ r ∈ Lib.live t, Region.Within ⟨b.addr, sizeofPoolData⟩ r := by
  refine ⟨_, h.live, ?_⟩
  rw [ngxMinPoolSize_eq] at hS
  simp only [Region.Within, sizeofPoolData]
  omega

lemma ChainOk.within {w : World} (h : ChainOk S w) {x : Region} (hx : InPool w.pool x) :
    ∃ b ∈ w.pool.blocks, x.Within ⟨b.addr, S⟩ := by
  obtain ⟨b, hb, hlo, hhi⟩ := hx
  have hok := h.block b hb
  have hlast := hok.last_le
  rw [hok.endp_eq] at hlast
  refine ⟨b, hb, ?_⟩
  simp only [Region.Within]
  omega

/-- Where a block takes a request: past everything given away, and inside. -/
lemma fit_spec {base : ℕ} {t : Trace} {b : Block} (h : BlockOk S base t b)
    (hS : ngxAlignment ∣ S) {size m : ℕ} {align : Bool} (hf : fit b size align = some m) :
    b.last ≤ m ∧ m + size ≤ b.endp ∧ (align = true → ngxAlignment ∣ m) := by
  have hend : ngxAlignment ∣ b.endp := by
    rw [h.endp_eq]
    exact Nat.dvd_add (Nat.dvd_trans (by decide) h.aligned) hS
  have hlast := h.last_le
  have hlt := h.endp_lt
  have hroom : b.last + (2 ^ 3 - 1) < wordSize := by
    obtain ⟨q, hq⟩ := hend
    simp only [ngxAlignment, wordSize] at hq hlt ⊢
    omega
  unfold fit at hf
  cases align with
  | false =>
    simp only [Bool.false_eq_true, if_false] at hf
    split_ifs at hf with hsize
    cases hf
    rw [wsub_of_le hlast hlt] at hsize
    exact ⟨le_rfl, by omega, by simp⟩
  | true =>
    simp only [if_true] at hf
    split_ifs at hf with hsize
    cases hf
    have hup : alignUp b.last ngxAlignment ≤ b.endp := alignUp_le (by decide) hlast hend hroom
    rw [wsub_of_le hup hlt] at hsize
    exact ⟨le_alignUp (by decide) hroom, by omega, fun _ => dvd_alignUp (by decide) hroom⟩

/-- The loop of `ngx_palloc_small` changes `last` in the first block that fits. -/
lemma smallLoop_some {size m : ℕ} {align : Bool} {bs bs' : List Block} {t t' : Trace}
    (h : smallLoop size align bs t = (some m, bs', t')) :
    ∃ l₁ b l₂, bs = l₁ ++ b :: l₂ ∧ (∀ c ∈ l₁, fit c size align = none) ∧
      fit b size align = some m ∧ bs' = l₁ ++ { b with last := wadd m size } :: l₂ := by
  induction bs generalizing t bs' with
  | nil => simp [smallLoop] at h
  | cons b bs ih =>
    simp only [smallLoop] at h
    cases hf : fit b size align with
    | some k =>
      simp only [hf, Prod.mk.injEq, Option.some.injEq] at h
      obtain ⟨rfl, rfl, _⟩ := h
      exact ⟨[], b, bs, rfl, by simp, hf, rfl⟩
    | none =>
      simp only [hf, Prod.mk.injEq] at h
      obtain ⟨hm, rfl, ht⟩ := h
      obtain ⟨l₁, c, l₂, hbs, hnone, hc, hbs'⟩ := ih (Prod.ext hm (Prod.ext rfl ht))
      exact ⟨b :: l₁, c, l₂, congrArg (b :: ·) hbs, List.forall_mem_cons.mpr ⟨hf, hnone⟩, hc,
        congrArg (b :: ·) hbs'⟩

/-- Walking the chain reads live headers only. -/
lemma smallLoop_trace (size : ℕ) (align : Bool) (bs : List Block) (t : Trace) :
    live (smallLoop size align bs t).2.2 = live t ∧
      (Sound t → (∀ b ∈ bs, ∃ r ∈ live t, Region.Within ⟨b.addr, sizeofPoolData⟩ r) →
        Sound (smallLoop size align bs t).2.2) := by
  induction bs generalizing t with
  | nil => exact ⟨rfl, fun h _ => h⟩
  | cons b bs ih =>
    simp only [smallLoop]
    cases fit b size align with
    | some m => exact ⟨rfl, fun h hb => ⟨hb b (by simp), h⟩⟩
    | none =>
      obtain ⟨hlive, hsound⟩ := ih (touch t b.addr sizeofPoolData)
      exact ⟨hlive, fun h hb => hsound ⟨hb b (by simp), h⟩ fun c hc => hb c (by simp [hc])⟩

/-- What the loop of `ngx_palloc_block` leaves of a header. -/
def Block.core (b : Block) : ℕ × ℕ × ℕ := (b.addr, b.last, b.endp)

lemma blockLoop_core (bs : List Block) (current : ℕ) (t : Trace) :
    (blockLoop bs current t).1.map Block.core = bs.map Block.core := by
  induction bs generalizing current t with
  | nil => rfl
  | cons p bs ih =>
    cases bs with
    | nil => rfl
    | cons q bs => simp only [blockLoop, List.map_cons, ih, Block.core]

lemma blockLoop_current (bs : List Block) (current : ℕ) (t : Trace) :
    (blockLoop bs current t).2.1 = current ∨
      (blockLoop bs current t).2.1 ∈ bs.map Block.addr := by
  induction bs generalizing current t with
  | nil => exact .inl rfl
  | cons p bs ih =>
    cases bs with
    | nil => exact .inl rfl
    | cons q bs =>
      simp only [blockLoop]
      rcases ih (if p.failed > 4 then q.addr else current) (touch t p.addr sizeofPoolData)
        with h | h
      · rw [h]
        split_ifs
        · exact .inr (by simp)
        · exact .inl rfl
      · exact .inr (List.mem_cons_of_mem _ h)

lemma blockLoop_trace (bs : List Block) (current : ℕ) (t : Trace) :
    live (blockLoop bs current t).2.2 = live t ∧
      (Sound t → (∀ b ∈ bs, ∃ r ∈ live t, Region.Within ⟨b.addr, sizeofPoolData⟩ r) →
        Sound (blockLoop bs current t).2.2) := by
  induction bs generalizing current t with
  | nil => exact ⟨rfl, fun h _ => h⟩
  | cons p bs ih =>
    cases bs with
    | nil => exact ⟨rfl, fun h hb => ⟨hb p (by simp), h⟩⟩
    | cons q bs =>
      obtain ⟨hlive, hsound⟩ := ih (if p.failed > 4 then q.addr else current)
        (touch t p.addr sizeofPoolData)
      exact ⟨hlive, fun h hb => hsound ⟨hb p (by simp), h⟩ fun c hc =>
        hb c (List.mem_cons_of_mem _ hc)⟩

/-- The pool and the live regions are as they were. -/
structure Unchanged (w w' : World) : Prop where
  pool : w'.pool = w.pool
  live : live w'.trace = live w.trace
  sound : Sound w'.trace

/-- The range `x` was taken from the blocks: the ranges in use before are still
in use and disjoint from it, and at most one block was added. -/
structure Carve (S : ℕ) (w w' : World) (x : Region) : Prop where
  chain : ChainOk S w'
  addr : w'.pool.addr = w.pool.addr
  large : w'.pool.large = w.pool.large
  keep : ∀ y, InPool w.pool y → InPool w'.pool y
  got : InPool w'.pool x
  disjoint : ∀ y, InPool w.pool y → Disjoint y.bytes x.bytes
  added : ∃ new : List Region, live w'.trace = new ++ live w.trace ∧
    w'.pool.blocks.map Block.addr = w.pool.blocks.map Block.addr ++ new.map Region.addr

lemma ChainOk.of_trace {w : World} (h : ChainOk S w) {t : Trace} (hl : live t = live w.trace)
    (hs : Sound t) : ChainOk S { w with trace := t } :=
  ⟨h.min_size, h.dvd_size, h.first, fun b hb =>
    { h.block b hb with live := hl ▸ (h.block b hb).live }, h.nodup, h.current, h.max_le, hs⟩

lemma Carve.of_live {w : World} {t : Trace} (hl : live t = live w.trace) {w' : World}
    {x : Region} (h : Carve S { w with trace := t } w' x) : Carve S w w' x :=
  ⟨h.chain, h.addr, h.large, h.keep, h.got, h.disjoint, by
    obtain ⟨new, hn, ha⟩ := h.added
    exact ⟨new, hl ▸ hn, ha⟩⟩

/-- Advancing `last` in one block carves the range out of that block. -/
lemma carve_of_fit {w : World} (h : ChainOk S w) {l₁ l₂ : List Block} {b : Block}
    (hblocks : w.pool.blocks = l₁ ++ b :: l₂) {size m : ℕ} {align : Bool}
    (hf : fit b size align = some m) {t : Trace} (hl : live t = live w.trace) (hs : Sound t) :
    Carve S w ⟨{ w.pool with blocks := l₁ ++ { b with last := wadd m size } :: l₂ }, t⟩
      ⟨m, size⟩ := by
  have hb : b ∈ w.pool.blocks := by simp [hblocks]
  have hok := h.block b hb
  obtain ⟨hlast, hend, -⟩ := fit_spec hok h.dvd_size hf
  have hadd : wadd m size = m + size := wadd_of_lt (hend.trans_lt hok.endp_lt)
  have hmem : ∀ c, c ∈ l₁ ++ { b with last := wadd m size } :: l₂ →
      c = { b with last := wadd m size } ∨ c ∈ w.pool.blocks := by
    intro c hc
    simp only [hblocks, List.mem_append, List.mem_cons] at hc ⊢
    tauto
  have haddr : (l₁ ++ { b with last := wadd m size } :: l₂).map Block.addr =
      w.pool.blocks.map Block.addr := by simp [hblocks]
  refine ⟨⟨h.min_size, h.dvd_size, ?_, ?_, ?_, ?_, h.max_le, hs⟩, rfl, rfl, ?_, ?_, ?_, ?_⟩
  · have hfirst := h.first
    rw [hblocks] at hfirst
    cases l₁ <;> simpa using hfirst
  · intro c hc
    rcases hmem c hc with rfl | hc
    · exact ⟨hl ▸ hok.live, hok.aligned, hok.endp_eq, hok.endp_lt, by
        have := hok.header; simp only [hadd]; omega, by simp only [hadd]; omega⟩
    · exact { h.block c hc with live := hl ▸ (h.block c hc).live }
  · exact haddr ▸ h.nodup
  · exact haddr ▸ h.current
  · rintro y ⟨c, hc, hlo, hhi⟩
    rw [hblocks] at hc
    rcases List.mem_append.mp hc with hc | hc
    · exact ⟨c, by simp [hc], hlo, hhi⟩
    rcases List.mem_cons.mp hc with rfl | hc
    · refine ⟨{ c with last := wadd m size }, by simp, hlo, ?_⟩
      change y.addr + y.size ≤ wadd m size
      omega
    · exact ⟨c, by simp [hc], hlo, hhi⟩
  · refine ⟨{ b with last := wadd m size }, by simp, ?_, by simp only [hadd]; omega⟩
    have := hok.header
    simp only
    omega
  · rintro y ⟨c, hc, hlo, hhi⟩
    by_cases hcb : c = b
    · subst hcb
      rw [Region.disjoint_iff]
      simp only
      omega
    · -- another block is another live region
      have hcok := h.block c hc
      have hne : (⟨c.addr, S⟩ : Region) ≠ ⟨b.addr, S⟩ := by
        intro he
        exact hcb (List.inj_on_of_nodup_map h.nodup hc hb (congrArg Region.addr he))
      have hapart := h.sound.apart_of_ne hcok.live hok.live hne
      have hy : y.Within ⟨c.addr, S⟩ := by
        have := hcok.last_le
        have := hcok.endp_eq
        simp only [Region.Within]
        omega
      have hx : Region.Within ⟨m, size⟩ ⟨b.addr, S⟩ := by
        have := hok.header
        have := hok.endp_eq
        simp only [Region.Within]
        omega
      exact hy.disjoint hx hapart
  · exact ⟨[], by simpa using hl, by simpa using haddr⟩

lemma BlockOk.of_core {base : ℕ} {t : Trace} {b c : Block} (h : BlockOk S base t c)
    (hc : c.core = b.core) : BlockOk S base t b := by
  obtain ⟨ha, hl, he⟩ : c.addr = b.addr ∧ c.last = b.last ∧ c.endp = b.endp := by
    simpa [Block.core] using hc
  exact ⟨ha ▸ h.live, ha ▸ h.aligned, by rw [← ha, ← he]; exact h.endp_eq, he ▸ h.endp_lt,
    by rw [← ha, ← hl]; exact h.header, by rw [← hl, ← he]; exact h.last_le⟩

lemma exists_core {l l' : List Block} (h : l.map Block.core = l'.map Block.core) {b : Block}
    (hb : b ∈ l) : ∃ c ∈ l', c.core = b.core :=
  List.mem_map.mp (h ▸ List.mem_map_of_mem hb)

lemma map_addr_of_core {l l' : List Block} (h : l.map Block.core = l'.map Block.core) :
    l.map Block.addr = l'.map Block.addr := by
  have hfst := congrArg (List.map Prod.fst) h
  simpa [List.map_map, Function.comp_def, Block.core] using hfst

/-- The size of a new block is that of the first. -/
lemma Pool.psize_eq {p : Pool} (hfirst : p.blocks.head?.map Block.addr = some p.addr)
    (hblock : ∀ b ∈ p.blocks, b.endp = b.addr + S ∧ b.endp < wordSize) : p.psize = S := by
  cases hb : p.blocks with
  | nil => simp [hb] at hfirst
  | cons b bs =>
    have haddr : b.addr = p.addr := by simpa [hb] using hfirst
    obtain ⟨hend, hlt⟩ := hblock b (by simp [hb])
    simp only [Pool.psize, hb, ← haddr]
    rw [wsub_of_le (by omega) hlt]
    omega

lemma ChainOk.psize_eq {w : World} (h : ChainOk S w) : w.pool.psize = S :=
  Pool.psize_eq h.first fun b hb => ⟨(h.block b hb).endp_eq, (h.block b hb).endp_lt⟩

/-- The region of a block is aligned, so rounding up behind its header moves nothing. -/
lemma place_in_new {new : ℕ} (haligned : ngxPoolAlignment ∣ new)
    (hbound : new + ngxMinPoolSize < wordSize) :
    alignUp (wadd new sizeofPoolData) ngxAlignment = new + sizeofPoolData ∧
      ngxAlignment ∣ new + sizeofPoolData := by
  have hsizes : sizeofPoolData = 32 ∧ ngxMinPoolSize = 96 := ⟨rfl, ngxMinPoolSize_eq⟩
  have hdvd : ngxAlignment ∣ new + sizeofPoolData :=
    Nat.dvd_add (Nat.dvd_trans (by decide) haligned) (by decide)
  refine ⟨?_, hdvd⟩
  rw [wadd_of_lt (by omega)]
  exact alignUp_of_dvd (k := 3) (by decide) hdvd (by omega)

lemma ChainOk.covered {w : World} (h : ChainOk S w) {bs : List Block}
    (hbs : ∀ b ∈ bs, b ∈ w.pool.blocks) :
    ∀ b ∈ bs, ∃ r ∈ live w.trace, Region.Within ⟨b.addr, sizeofPoolData⟩ r :=
  fun b hb => (h.block b (hbs b hb)).covered h.min_size

lemma Pool.mem_of_walk {p : Pool} {b : Block} (hb : b ∈ p.walk) : b ∈ p.blocks := by
  rw [← p.before_append_walk]
  exact List.mem_append_right _ hb

/-- Appending a block made of a new region: the header is skipped, the request
is placed behind it, and the counters of the older blocks change. -/
lemma carve_of_new {w : World} (h : ChainOk S w) {size new : ℕ} (hsize : size + sizeofPool ≤ S)
    (hfresh : Fresh w.trace ⟨new, S⟩) (haligned : ngxPoolAlignment ∣ new)
    (hbound : new + S < wordSize) {old : List Block} {current : ℕ}
    (hold : old.map Block.core = w.pool.blocks.map Block.core)
    (hcurrent : current ∈ w.pool.blocks.map Block.addr) {t : Trace}
    (hl : live t = ⟨new, S⟩ :: live w.trace) (hs : Sound t) :
    Carve S w ⟨{ w.pool with
        blocks := old ++ [⟨new, new + sizeofPoolData + size, new + S, 0⟩]
        current := current }, t⟩ ⟨new + sizeofPoolData, size⟩ := by
  have haddr : (old ++ [(⟨new, new + sizeofPoolData + size, new + S, 0⟩ : Block)]).map
      Block.addr = w.pool.blocks.map Block.addr ++ [new] := by simp [map_addr_of_core hold]
  have hne : ∀ b ∈ w.pool.blocks, new ≠ b.addr := fun b hb =>
    (hfresh.2 _ (h.block b hb).live).addr_ne
  have hhead : headerSize w.pool.addr new = sizeofPoolData := by
    obtain ⟨b, bs, hb, ha⟩ := h.blocks_eq
    rw [headerSize, if_neg (ha ▸ hne b (by simp [hb]))]
  have hsizes : sizeofPool = 56 ∧ sizeofPoolData = 32 := ⟨rfl, rfl⟩
  refine ⟨⟨h.min_size, h.dvd_size, ?_, ?_, ?_, ?_, h.max_le, hs⟩, rfl, rfl, ?_, ?_, ?_, ?_⟩
  · obtain ⟨b, bs, hb, ha⟩ := h.blocks_eq
    have hmap := map_addr_of_core hold
    cases old with
    | nil => simp [hb] at hmap
    | cons c cs =>
      simp only [hb, List.map_cons, List.cons.injEq] at hmap
      simp [hmap.1, ha]
  · intro b hb
    rcases List.mem_append.mp hb with hb | hb
    · obtain ⟨c, hc, hcore⟩ := exists_core hold hb
      refine BlockOk.of_core { h.block c hc with live := ?_ } hcore
      rw [hl]
      exact List.mem_cons_of_mem _ (h.block c hc).live
    · rw [List.mem_singleton] at hb
      subst hb
      exact ⟨by simp [hl], haligned, rfl, hbound, by simp only [hhead]; omega,
        by simp only; omega⟩
  · rw [haddr]
    refine List.nodup_append.mpr ⟨h.nodup, List.nodup_singleton _, ?_⟩
    intro a ha b hb
    obtain ⟨c, hc, rfl⟩ := List.mem_map.mp ha
    rw [List.mem_singleton] at hb
    exact hb ▸ (hne c hc).symm
  · rw [haddr]
    exact List.mem_append_left _ hcurrent
  · rintro y ⟨c, hc, hlo, hhi⟩
    obtain ⟨b, hb, hcore⟩ := exists_core hold.symm hc
    simp only [Block.core, Prod.mk.injEq] at hcore
    exact ⟨b, List.mem_append_left _ hb, by rw [hcore.1]; exact hlo, by
      rw [hcore.2.1]; exact hhi⟩
  · exact ⟨_, List.mem_append_right _ (List.mem_singleton_self _), by simp [hhead], by simp⟩
  · intro y hy
    obtain ⟨b, hb, hin⟩ := h.within hy
    have hx : Region.Within ⟨new + sizeofPoolData, size⟩ ⟨new, S⟩ := by
      simp only [Region.Within]
      omega
    exact (hx.disjoint hin (hfresh.2 _ (h.block b hb).live)).symm
  · exact ⟨[⟨new, S⟩], by simpa using hl, by simpa using haddr⟩

lemma ngxPallocBlock_spec {w : World} (h : ChainOk S w) {size : ℕ}
    (hsize : size + sizeofPool ≤ S) :
    (∀ w', ngxPallocBlock A w size = (none, w') → Unchanged w w') ∧
    ∀ m w', ngxPallocBlock A w size = (some m, w') →
      Carve S w w' ⟨m, size⟩ ∧ ngxAlignment ∣ m := by
  have hcover := h.pool_covered
  have hsound : Sound (touch w.trace w.pool.addr sizeofPool) := ⟨hcover, h.sound⟩
  simp only [ngxPallocBlock, ngxAlloc, h.psize_eq]
  cases hm : A.malloc (touch w.trace w.pool.addr sizeofPool) S with
  | none =>
    refine ⟨?_, fun m w' he => by simp at he⟩
    rintro w' he
    cases he
    exact ⟨rfl, rfl, hsound⟩
  | some new =>
    refine ⟨fun w' he => by simp at he, ?_⟩
    rintro m w' he
    simp only [Prod.mk.injEq, Option.some.injEq] at he
    obtain ⟨rfl, rfl⟩ := he
    have hanswer := A.fresh _ _ _ hm
    have hfresh : Fresh w.trace ⟨new, S⟩ := hanswer
    have haligned := A.aligned _ _ _ hm
    have hbound := A.bounded _ _ _ hm
    have hmin := h.min_size
    rw [ngxMinPoolSize_eq] at hmin
    have hsizes : sizeofPool = 56 ∧ sizeofPoolData = 32 := ⟨rfl, rfl⟩
    obtain ⟨hplace, hdvd⟩ := place_in_new haligned (by rw [ngxMinPoolSize_eq]; omega)
    rw [hplace, wadd_of_lt (a := new + sizeofPoolData) (by omega), wadd_of_lt hbound]
    set t := touch (.malloc S (some new) :: touch w.trace w.pool.addr sizeofPool) new
      sizeofPoolData with ht
    have hlive : live t = ⟨new, S⟩ :: live w.trace := rfl
    have hst : Sound t := by
      refine ⟨⟨⟨new, S⟩, by simp, ?_⟩, hfresh, hsound⟩
      simp only [Region.Within]
      omega
    obtain ⟨hloop, hsloop⟩ := blockLoop_trace w.pool.walk w.pool.current t
    refine ⟨carve_of_new h hsize hfresh haligned hbound ?_ ?_ (hloop.trans hlive)
      (hsloop hst ?_), hdvd⟩
    · rw [List.map_append, blockLoop_core, ← List.map_append, Pool.before_append_walk]
    · rcases blockLoop_current w.pool.walk w.pool.current t with hc | hc
      · rw [hc]
        exact h.current
      · obtain ⟨b, hb, he⟩ := List.mem_map.mp hc
        exact List.mem_map.mpr ⟨b, Pool.mem_of_walk hb, he⟩
    · intro b hb
      obtain ⟨r, hr, hin⟩ := h.covered (fun _ => Pool.mem_of_walk) b hb
      exact ⟨r, hlive ▸ List.mem_cons_of_mem _ hr, hin⟩

/-- A small request either leaves the pool alone or takes its range from the
blocks; the range is aligned if alignment was asked for. -/
lemma ngxPallocSmall_spec {w : World} (h : ChainOk S w) {size : ℕ}
    (hsize : size + sizeofPool ≤ S) (align : Bool) :
    (∀ w', ngxPallocSmall A w size align = (none, w') → Unchanged w w') ∧
    ∀ m w', ngxPallocSmall A w size align = (some m, w') →
      Carve S w w' ⟨m, size⟩ ∧ (align = true → ngxAlignment ∣ m) := by
  have hsound : Sound (touch w.trace w.pool.addr sizeofPool) := ⟨h.pool_covered, h.sound⟩
  obtain ⟨hlive, hsloop⟩ := smallLoop_trace size align w.pool.walk
    (touch w.trace w.pool.addr sizeofPool)
  have hst := hsloop hsound (h.covered fun _ => Pool.mem_of_walk)
  simp only [ngxPallocSmall]
  rcases hloop : smallLoop size align w.pool.walk (touch w.trace w.pool.addr sizeofPool) with
    ⟨_ | m, walk, t⟩
  · rw [hloop] at hlive hst
    obtain ⟨hnone, hsome⟩ := ngxPallocBlock_spec (A := A) (h.of_trace hlive hst) hsize
    constructor
    · intro w' he
      obtain ⟨hp, hl, hs⟩ := hnone w' he
      exact ⟨hp, hl.trans hlive, hs⟩
    · intro m w' he
      obtain ⟨hcarve, hdvd⟩ := hsome m w' he
      exact ⟨hcarve.of_live hlive, fun _ => hdvd⟩
  · rw [hloop] at hlive hst
    refine ⟨fun w' he => by simp at he, ?_⟩
    rintro m' w' he
    cases he
    obtain ⟨l₁, b, l₂, hwalk, -, hfit, rfl⟩ := smallLoop_some hloop
    have hblocks : w.pool.blocks = (w.pool.before ++ l₁) ++ b :: l₂ := by
      rw [List.append_assoc, ← hwalk, Pool.before_append_walk]
    have hb := h.block b (by simp [hblocks])
    refine ⟨?_, (fit_spec hb h.dvd_size hfit).2.2⟩
    rw [← List.append_assoc]
    exact carve_of_fit h hblocks hfit hlive hst

end ShareBike.MemoryPool
