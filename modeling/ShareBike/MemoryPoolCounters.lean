import ShareBike.MemoryPoolFit
import Mathlib.Data.List.Perm.Subperm
import Mathlib.Data.List.TakeWhile

/-!
# The miss counters of the chain

`ngx_palloc_block` counts a miss for every block from `current` on but the last, and
in the same loop moves `current` behind each block that had missed more than four
times. That no other block is jumped over rests on the order of the counters: along
the chain they never increase, so those that pass the limit stand in front.
-/
namespace ShareBike.MemoryPool
open ShareBike.Lib

variable {A : Malloc} {S : ℕ} {s : State}

/-- The counters of a chain: those of the blocks before `current`, and those of the
blocks from `current` on. The last block is left out; its counter is zero. -/
structure Misses where
  skipped : List ℕ
  older : List ℕ

namespace Misses

/-- A block is added: the others count a miss, and those with more than five are
left behind. -/
def grow (c : Misses) : Misses :=
  ⟨c.skipped ++ (c.older.map (· + 1)).takeWhile (5 < ·),
    (c.older.map (· + 1)).dropWhile (5 < ·) ++ [0]⟩

def reset (c : Misses) : Misses := ⟨[], List.replicate (c.skipped.length + c.older.length) 0⟩

/-- Along the chain the counters fall by at least `gap`. -/
structure Sorted (gap : ℕ) (c : Misses) : Prop where
  skipped : ∀ n ∈ c.skipped, n = 6
  searched : ∀ n ∈ c.older, n ≤ 5
  order : c.older.Pairwise fun m n => n + gap ≤ m

variable {c : Misses} {gap : ℕ}

/-- In a falling list nothing above a limit stands behind the first element below. -/
lemma le_of_mem_dropWhile {l : List ℕ} (limit : ℕ) (h : l.Pairwise fun m n => n + gap ≤ m) :
    ∀ n ∈ l.dropWhile (limit < ·), n ≤ limit := by
  induction l with
  | nil => simp
  | cons m l ih =>
    obtain ⟨hhead, htail⟩ := List.pairwise_cons.mp h
    by_cases hm : limit < m
    · rw [List.dropWhile_cons_of_pos (by simpa using hm)]
      exact ih htail
    · rw [List.dropWhile_cons_of_neg (by simpa using hm)]
      intro n hn
      rcases List.mem_cons.mp hn with rfl | hn
      · omega
      · have := hhead n hn
        omega

lemma Sorted.grow (h : c.Sorted gap) (hgap : gap ≤ 1) : c.grow.Sorted gap := by
  have hcounted : (c.older.map (· + 1)).Pairwise fun m n => n + gap ≤ m := by
    rw [List.pairwise_map]
    refine h.order.imp fun hle => ?_
    omega
  have hbound : ∀ n ∈ c.older.map (· + 1), 1 ≤ n ∧ n ≤ 6 := by
    intro n hn
    obtain ⟨m, hm, rfl⟩ := List.mem_map.mp hn
    have := h.searched m hm
    omega
  refine ⟨?_, ?_, ?_⟩
  · intro n hn
    rcases List.mem_append.mp hn with hn | hn
    · exact h.skipped n hn
    · have hlarge := List.mem_takeWhile_imp hn
      have hle := hbound n ((List.takeWhile_sublist _).subset hn)
      simp only [decide_eq_true_eq] at hlarge
      omega
  · intro n hn
    rcases List.mem_append.mp hn with hn | hn
    · exact le_of_mem_dropWhile 5 hcounted n hn
    · rw [List.mem_singleton] at hn
      omega
  · refine List.pairwise_append.mpr ⟨hcounted.sublist (List.dropWhile_sublist _), by simp, ?_⟩
    intro m hm n hn
    have := hbound m ((List.dropWhile_sublist _).subset hm)
    rw [List.mem_singleton] at hn
    omega

lemma Sorted.reset : c.reset.Sorted 0 := by
  refine ⟨by simp [Misses.reset], ?_, ?_⟩
  · intro n hn
    have := List.eq_of_mem_replicate hn
    omega
  · exact List.pairwise_replicate.mpr (.inr le_rfl)

lemma Sorted.weaken (h : c.Sorted gap) : c.Sorted 0 :=
  ⟨h.skipped, h.searched, h.order.imp fun hle => by omega⟩

/-- Counters that differ from each other and are at most five are at most six. -/
lemma Sorted.length_le (h : c.Sorted 1) : c.older.length ≤ 6 := by
  have hnodup : c.older.Nodup := h.order.imp fun hle => by omega
  have hsub : c.older ⊆ List.range 6 := by
    intro n hn
    have := h.searched n hn
    rw [List.mem_range]
    omega
  simpa using (hnodup.subperm hsub).length_le

end Misses

/-- Where `current` divides the chain. -/
lemma Pool.split_eq {p : Pool} {l₁ l₂ : List Block} (hblocks : p.blocks = l₁ ++ l₂)
    (hbefore : ∀ b ∈ l₁, b.addr ≠ p.current)
    (hwalk : l₂.head?.map Block.addr = some p.current) : p.before = l₁ ∧ p.walk = l₂ := by
  obtain ⟨b, hb, hcur⟩ := Option.map_eq_some_iff.mp hwalk
  obtain ⟨l, rfl⟩ := List.head?_eq_some_iff.mp hb
  unfold Pool.before Pool.walk
  rw [hblocks, List.takeWhile_append_of_pos (by simpa using hbefore),
    List.dropWhile_append_of_pos (by simpa using hbefore),
    List.takeWhile_cons_of_neg (by simp [hcur]), List.dropWhile_cons_of_neg (by simp [hcur])]
  simp

lemma Pool.walk_head {p : Pool} (h : p.current ∈ p.blocks.map Block.addr) :
    p.walk.head?.map Block.addr = some p.current := by
  cases hwalk : p.walk with
  | nil =>
    obtain ⟨b, hb, hcur⟩ := List.mem_map.mp h
    have hne := List.dropWhile_eq_nil_iff.mp hwalk b hb
    simp [hcur] at hne
  | cons b bs =>
    have hne := List.head?_dropWhile_not (fun b : Block => b.addr ≠ p.current) p.blocks
    have hhead : (p.blocks.dropWhile fun b => b.addr ≠ p.current).head? = some b := by
      show p.walk.head? = some b
      rw [hwalk]
      rfl
    rw [hhead] at hne
    simpa using hne

/-- `p->d.failed++`. -/
def Block.miss (b : Block) : Block := { b with failed := b.failed + 1 }

@[simp] lemma Block.miss_addr (b : Block) : b.miss.addr = b.addr := rfl

@[simp] lemma Block.miss_failed (b : Block) : b.miss.failed = b.failed + 1 := rfl

/-- The loop of `ngx_palloc_block` raises every counter but the last. -/
lemma blockLoop_failed (bs : List Block) (z : Block) (current : ℕ) (t : Trace) :
    (blockLoop (bs ++ [z]) current t).1 = bs.map Block.miss ++ [z] := by
  induction bs generalizing current t with
  | nil => rfl
  | cons p bs ih =>
    obtain ⟨q, l, hq⟩ := List.exists_cons_of_ne_nil (List.append_ne_nil_of_right_ne_nil bs
      (List.cons_ne_nil z []))
    rw [List.cons_append, hq, blockLoop, ← hq, ih]
    rfl

/-- A counter is raised by one at most. -/
lemma exists_of_mem_blockLoop {bs : List Block} {current : ℕ} {t : Trace} {b : Block}
    (hb : b ∈ (blockLoop bs current t).1) :
    ∃ c ∈ bs, b.addr = c.addr ∧ b.failed ≤ c.failed + 1 := by
  rcases List.eq_nil_or_concat bs with rfl | ⟨bs, z, rfl⟩
  · cases hb
  · rw [List.concat_eq_append, blockLoop_failed] at hb
    rcases List.mem_append.mp hb with hb | hb
    · obtain ⟨c, hc, rfl⟩ := List.mem_map.mp hb
      exact ⟨c, by simp [hc], rfl, le_rfl⟩
    · rw [List.mem_singleton] at hb
      exact ⟨z, by simp, congrArg Block.addr hb, hb ▸ Nat.le_succ _⟩

/-- It leaves `current` alone while no block has missed five times. -/
lemma blockLoop_low {bs : List Block} (z : Block) (h : ∀ b ∈ bs, b.failed ≤ 4) (current : ℕ)
    (t : Trace) : (blockLoop (bs ++ [z]) current t).2.1 = current := by
  induction bs generalizing current t with
  | nil => rfl
  | cons p bs ih =>
    obtain ⟨q, l, hq⟩ := List.exists_cons_of_ne_nil (List.append_ne_nil_of_right_ne_nil bs
      (List.cons_ne_nil z []))
    have hp : ¬ p.failed > 4 := by
      have := h p List.mem_cons_self
      omega
    rw [List.cons_append, hq, blockLoop, ← hq, if_neg hp]
    exact ih (fun b hb => h b (List.mem_cons_of_mem _ hb)) current _

/-- It moves `current` behind the blocks in front that had missed five times. -/
lemma blockLoop_high {hi lo : List Block} (z : Block) (hhi : ∀ b ∈ hi, 4 < b.failed)
    (hlo : ∀ b ∈ lo, b.failed ≤ 4) (current : ℕ) (t : Trace)
    (hcur : (hi ++ (lo ++ [z])).head?.map Block.addr = some current) :
    (lo ++ [z]).head?.map Block.addr =
      some (blockLoop (hi ++ (lo ++ [z])) current t).2.1 := by
  induction hi generalizing current t with
  | nil => rw [List.nil_append, blockLoop_low z hlo]; exact hcur
  | cons p hi ih =>
    obtain ⟨q, l, hq⟩ := List.exists_cons_of_ne_nil (List.append_ne_nil_of_right_ne_nil hi
      (List.append_ne_nil_of_right_ne_nil lo (List.cons_ne_nil z [])))
    have hp : p.failed > 4 := hhi p List.mem_cons_self
    have hnext := ih (fun b hb => hhi b (List.mem_cons_of_mem _ hb)) q.addr
      (touch t p.addr sizeofPoolData) (by rw [hq]; rfl)
    rw [List.cons_append, hq, blockLoop, ← hq, if_pos hp]
    exact hnext

/-- What a small request leaves of a pool: `malloc` failed, or a block took the request,
or a block was added. -/
inductive Served (p : Pool) (n : ℕ) (align : Bool) : Pool → Prop
  | failed : (∀ c ∈ p.walk, fit c n align = none) → Served p n align p
  | fitted {l₁ l₂ : List Block} {b : Block} {m : ℕ} : p.walk = l₁ ++ b :: l₂ →
      (∀ c ∈ l₁, fit c n align = none) → fit b n align = some m →
      Served p n align
        { p with blocks := p.before ++ (l₁ ++ { b with last := wadd m n } :: l₂) }
  | added {new : Block} {t : Trace} : (∀ c ∈ p.walk, fit c n align = none) →
      new.failed = 0 →
      Served p n align { p with
        blocks := p.before ++ (blockLoop p.walk p.current t).1 ++ [new]
        current := (blockLoop p.walk p.current t).2.1 }

lemma Served.max_eq {p q : Pool} {n : ℕ} {align : Bool} (h : Served p n align q) :
    q.max = p.max := by
  cases h <;> rfl

lemma Served.large_eq {p q : Pool} {n : ℕ} {align : Bool} (h : Served p n align q) :
    q.large = p.large := by
  cases h <;> rfl

lemma smallLoop_none {n : ℕ} {align : Bool} {bs : List Block} {t : Trace}
    (h : (smallLoop n align bs t).1 = none) : ∀ c ∈ bs, fit c n align = none := by
  induction bs generalizing t with
  | nil => simp
  | cons b bs ih =>
    simp only [smallLoop] at h
    cases hf : fit b n align with
    | some m => simp [hf] at h
    | none =>
      simp only [hf] at h
      exact List.forall_mem_cons.mpr ⟨hf, ih h⟩

lemma ngxPallocSmall_served (w : World) (n : ℕ) (align : Bool) :
    Served w.pool n align (ngxPallocSmall A w n align).2.pool := by
  simp only [ngxPallocSmall]
  rcases hloop : smallLoop n align w.pool.walk (touch w.trace w.pool.addr sizeofPool) with
    ⟨_ | m, bs, t⟩
  · have hnone := smallLoop_none (congrArg Prod.fst hloop)
    simp only [ngxPallocBlock, ngxAlloc]
    cases hm : A.malloc (touch t w.pool.addr sizeofPool) w.pool.psize with
    | none => exact .failed hnone
    | some new => exact .added hnone rfl
  · obtain ⟨l₁, b, l₂, hwalk, hnone, hfit, rfl⟩ := smallLoop_some hloop
    exact .fitted hwalk hnone hfit

/-- What the small request of an operation leaves, if there is one. -/
def ServedBy (p : Pool) : Option (ℕ × Bool) → Pool → Prop
  | none, q => q = p
  | some (n, align), q => Served p n align q

/-- The pool after an operation, as its small request left it but for the large list. -/
def LeftBy (p : Pool) (request : Option (ℕ × Bool)) (p' : Pool) : Prop :=
  ∃ q large, ServedBy p request q ∧ p' = { q with large := large }

lemma leftBy_pushLarge (w : World) (a : ℕ) :
    LeftBy w.pool (some (sizeofPoolLarge, true)) (pushLarge A w a).2.pool := by
  have hserved := ngxPallocSmall_served (A := A) w sizeofPoolLarge true
  simp only [pushLarge]
  rcases hr : ngxPallocSmall A w sizeofPoolLarge true with ⟨_ | l, w'⟩ <;> rw [hr] at hserved
  · exact ⟨w'.pool, w'.pool.large, hserved, rfl⟩
  · exact ⟨w'.pool, _, hserved, rfl⟩

lemma leftBy_pallocLarge (w : World) (n : ℕ) :
    LeftBy w.pool (largeSmall A w n) (ngxPallocLarge A w n).2.pool := by
  simp only [largeSmall, ngxPallocLarge, ngxAlloc]
  cases hm : A.malloc w.trace n with
  | none => exact ⟨w.pool, w.pool.large, rfl, rfl⟩
  | some a =>
    dsimp only
    rcases hr : reuseLoop a 0 w.pool.large (touch (.malloc n (some a) :: w.trace) w.pool.addr
      sizeofPool) with ⟨_ | large, t⟩
    · exact leftBy_pushLarge { w with trace := t } a
    · exact ⟨w.pool, large, rfl, rfl⟩

lemma leftBy_pallocWith (w : World) (n : ℕ) (align : Bool) :
    LeftBy w.pool (smallWith A w n align) (pallocWith A w n align).2.pool := by
  simp only [smallWith, pallocWith]
  split_ifs with hn
  · exact ⟨_, _, ngxPallocSmall_served
      { w with trace := touch w.trace w.pool.addr sizeofPool } n align, rfl⟩
  · exact leftBy_pallocLarge { w with trace := touch w.trace w.pool.addr sizeofPool } n

/-- On the chain every operation but reset does what its small request does. -/
lemma leftBy_apply {op : Op} (hop : op ≠ .reset) :
    LeftBy s.world.pool (op.small A s.world) (s.apply A op).world.pool := by
  cases op with
  | palloc n | pnalloc n =>
    simp only [State.apply, hold_world]
    exact leftBy_pallocWith s.world n _
  | pcalloc n =>
    have hpalloc := leftBy_pallocWith (A := A) s.world n true
    simp only [State.apply, hold_world, ngxPcalloc, ngxPalloc]
    rcases hr : pallocWith A s.world n true with ⟨_ | p, w⟩ <;> rw [hr] at hpalloc <;>
      exact hpalloc
  | pmemalign n a =>
    simp only [State.apply, hold_world, ngxPmemalign, ngxAlloc, Op.small]
    cases hm : A.malloc s.world.trace n with
    | none => exact ⟨s.world.pool, s.world.pool.large, rfl, rfl⟩
    | some p =>
      exact leftBy_pushLarge { s.world with trace := .malloc n (some p) :: s.world.trace } p
  | pfree p => exact ⟨s.world.pool, _, rfl, rfl⟩
  | reset => exact absurd rfl hop

/-- The counters of a pool's chain. -/
structure Counts (c : Misses) (p : Pool) : Prop where
  before : p.before.map Block.failed = c.skipped
  walk : p.walk.map Block.failed = c.older ++ [0]

/-- The facts about a chain that the counters rest on. -/
structure Chained (p : Pool) : Prop where
  first : p.blocks.head?.map Block.addr = some p.addr
  nodup : (p.blocks.map Block.addr).Nodup
  current : p.current ∈ p.blocks.map Block.addr

lemma Counts.length_before {c : Misses} {p : Pool} (h : Counts c p) :
    p.before.length = c.skipped.length := by
  simpa using congrArg List.length h.before

lemma Counts.length_walk {c : Misses} {p : Pool} (h : Counts c p) :
    p.walk.length = c.older.length + 1 := by
  simpa using congrArg List.length h.walk

lemma Chained.addr_ne {p : Pool} (h : Chained p) {l₁ l₂ : List Block}
    (hblocks : p.blocks = l₁ ++ l₂) {b c : Block} (hb : b ∈ l₁) (hc : c ∈ l₂) :
    b.addr ≠ c.addr := by
  have hnodup := h.nodup
  rw [hblocks, List.map_append] at hnodup
  exact (List.nodup_append.mp hnodup).2.2 _ (List.mem_map_of_mem hb) _ (List.mem_map_of_mem hc)

/-- Taking a request leaves the division of the chain as it is. -/
lemma Chained.split_fitted {p : Pool} (hp : Chained p) {l₁ l₂ : List Block} {b : Block}
    {last : ℕ} (hwalk : p.walk = l₁ ++ b :: l₂) {q : Pool}
    (hq : q = { p with blocks := p.before ++ (l₁ ++ { b with last := last } :: l₂) }) :
    q.before = p.before ∧ q.walk = l₁ ++ { b with last := last } :: l₂ := by
  have hcur : q.current = p.current := by rw [hq]
  refine Pool.split_eq (by rw [hq]) ?_ ?_
  · intro d hd
    have hne := List.mem_takeWhile_imp hd
    rw [hcur]
    simpa using hne
  · rw [hcur, ← Pool.walk_head hp.current, hwalk]
    cases l₁ <;> rfl

lemma Counts.of_fitted {c : Misses} {p : Pool} (h : Counts c p) (hp : Chained p)
    {l₁ l₂ : List Block} {b : Block} {last : ℕ} (hwalk : p.walk = l₁ ++ b :: l₂) :
    Counts c { p with blocks := p.before ++ (l₁ ++ { b with last := last } :: l₂) } := by
  obtain ⟨hfst, hsnd⟩ := hp.split_fitted hwalk
    (q := { p with blocks := p.before ++ (l₁ ++ { b with last := last } :: l₂) }) rfl
  refine ⟨?_, ?_⟩
  · rw [hfst]
    exact h.before
  · rw [hsnd, ← h.walk, hwalk]
    simp

/-- The loop of `ngx_palloc_block` divides the chain behind the blocks in front that had
missed five times. -/
lemma Chained.split_added {p : Pool} (hp : Chained p) {hi lo : List Block} {z : Block}
    (hwalk : p.walk = hi ++ (lo ++ [z])) (hhi : ∀ b ∈ hi, 4 < b.failed)
    (hlo : ∀ b ∈ lo, b.failed ≤ 4) (new : Block) (t : Trace) {q : Pool}
    (hq : q = { p with
      blocks := p.before ++ (blockLoop p.walk p.current t).1 ++ [new]
      current := (blockLoop p.walk p.current t).2.1 }) :
    q.before = p.before ++ hi.map Block.miss ∧ q.walk = lo.map Block.miss ++ [z, new] := by
  have hcur := blockLoop_high z hhi hlo p.current t
    (by rw [← hwalk]; exact Pool.walk_head hp.current)
  have hnext : q.current = (blockLoop (hi ++ (lo ++ [z])) p.current t).2.1 := by rw [hq, hwalk]
  rw [← hnext] at hcur
  have hblocks : q.blocks = (p.before ++ hi.map Block.miss) ++ (lo.map Block.miss ++ [z, new]) := by
    rw [hq]
    dsimp only
    rw [hwalk, ← List.append_assoc hi, blockLoop_failed, List.map_append]
    simp
  have hchain : p.blocks = (p.before ++ hi) ++ (lo ++ [z]) := by
    rw [← p.before_append_walk, hwalk, List.append_assoc]
  refine Pool.split_eq hblocks ?_ ?_
  · intro b hb
    obtain ⟨e, he, haddr⟩ : ∃ e ∈ p.before ++ hi, e.addr = b.addr := by
      rcases List.mem_append.mp hb with hb | hb
      · exact ⟨b, List.mem_append_left _ hb, rfl⟩
      · obtain ⟨e, he, rfl⟩ := List.mem_map.mp hb
        exact ⟨e, List.mem_append_right _ he, rfl⟩
    obtain ⟨d, hd, hdcur⟩ := Option.map_eq_some_iff.mp hcur
    rw [← haddr, ← hdcur]
    exact hp.addr_ne hchain he (List.mem_of_head? hd)
  · rw [← hcur]
    cases lo <;> rfl

/-- The counters fall, so the blocks that missed five times stand in front. -/
lemma Counts.split {c : Misses} {p : Pool} (h : Counts c p) (hc : c.Sorted 0) :
    ∃ hi lo z, p.walk = hi ++ (lo ++ [z]) ∧ (∀ b ∈ hi, 4 < b.failed) ∧
      (∀ b ∈ lo, b.failed ≤ 4) ∧ z.failed = 0 ∧
      (hi.map Block.miss).map Block.failed = (c.older.map (· + 1)).takeWhile (5 < ·) ∧
      (lo.map Block.miss).map Block.failed = (c.older.map (· + 1)).dropWhile (5 < ·) := by
  obtain ⟨bs, zs, hwalk, holder, hz⟩ := List.map_eq_append_iff.mp h.walk
  obtain ⟨z, rfl, hzero⟩ := List.map_eq_singleton_iff.mp hz
  have hlimit : ((fun n => decide (5 < n)) ∘ fun n => n + 1) ∘ Block.failed =
      fun b : Block => decide (4 < b.failed) := by
    funext b
    refine decide_eq_decide.mpr ?_
    dsimp only
    omega
  refine ⟨bs.takeWhile fun b => 4 < b.failed, bs.dropWhile fun b => 4 < b.failed, z,
    ?_, ?_, ?_, hzero, ?_, ?_⟩
  · rw [hwalk, ← List.append_assoc, List.takeWhile_append_dropWhile]
  · intro b hb
    have hlarge := List.mem_takeWhile_imp hb
    simpa using hlarge
  · intro b hb
    refine Misses.le_of_mem_dropWhile 4 hc.order _ ?_
    rw [← holder, List.dropWhile_map]
    exact List.mem_map_of_mem hb
  · rw [← holder, List.takeWhile_map, List.takeWhile_map, hlimit]
    simp
  · rw [← holder, List.dropWhile_map, List.dropWhile_map, hlimit]
    simp

lemma Counts.of_added {c : Misses} {p : Pool} (h : Counts c p) (hc : c.Sorted 0)
    (hp : Chained p) {new : Block} (hnew : new.failed = 0) (t : Trace) :
    Counts c.grow { p with
      blocks := p.before ++ (blockLoop p.walk p.current t).1 ++ [new]
      current := (blockLoop p.walk p.current t).2.1 } := by
  obtain ⟨hi, lo, z, hwalk, hhi, hlo, hzero, hfront, hrest⟩ := h.split hc
  obtain ⟨hfst, hsnd⟩ := hp.split_added hwalk hhi hlo new t rfl
  refine ⟨?_, ?_⟩
  · rw [hfst, Misses.grow, List.map_append, h.before, hfront]
  · rw [hsnd, Misses.grow, List.map_append, hrest]
    simp [hzero, hnew]

lemma Counts.served {c : Misses} {p q : Pool} {n : ℕ} {align : Bool} (h : Counts c p)
    (hc : c.Sorted 0) (hp : Chained p) (hq : Served p n align q) :
    Counts c q ∨ Counts c.grow q := by
  cases hq with
  | failed => exact .inl h
  | fitted hwalk _ _ => exact .inl (h.of_fitted hp hwalk)
  | @added _ t _ hnew => exact .inr (h.of_added hc hp hnew t)

/-- `ngx_reset_pool` rewinds every block and starts at the first one. -/
def Block.rewind (b : Block) : Block := { b with last := wadd b.addr sizeofPool, failed := 0 }

lemma Chained.split_reset {w : World} (hp : Chained w.pool) :
    (ngxResetPool w).pool.before = [] ∧
      (ngxResetPool w).pool.walk = w.pool.blocks.map Block.rewind := by
  have hblocks : (ngxResetPool w).pool.blocks = w.pool.blocks.map Block.rewind :=
    rewindLoop_eq _ _
  refine Pool.split_eq hblocks (by simp) ?_
  rw [← List.head?_map, List.map_map]
  have hfirst := hp.first
  rw [← List.head?_map] at hfirst
  exact hfirst

lemma Counts.reset {c : Misses} {w : World} (h : Counts c w.pool) (hp : Chained w.pool) :
    Counts c.reset (ngxResetPool w).pool := by
  obtain ⟨hfst, hsnd⟩ := hp.split_reset
  have hlength : w.pool.blocks.length = c.skipped.length + c.older.length + 1 := by
    rw [← w.pool.before_append_walk, List.length_append, h.length_before, h.length_walk]
    omega
  refine ⟨by rw [hfst]; rfl, ?_⟩
  rw [hsnd, List.map_map, Misses.reset, ← List.replicate_succ', ← hlength]
  exact List.eq_replicate_iff.mpr ⟨by simp, by simp [Block.rewind]⟩

lemma Inv.chained (h : Inv S [] s) : Chained s.world.pool :=
  ⟨h.chain.first, h.chain.nodup, h.chain.current⟩

/-- The blocks that the search of a request comes to and finds without room. -/
def missed (n : ℕ) (align : Bool) (bs : List Block) : List Block :=
  bs.takeWhile fun b => (fit b n align).isNone

/-- How often the block at `a` was missed since the last reset. -/
def countMisses (A : Malloc) (s : State) (op : Op) (misses : ℕ → ℕ) (a : ℕ) : ℕ :=
  if op = .reset then 0
  else misses a + (op.small A s.world).elim 0 fun (n, align) =>
    ((missed n align s.world.pool.walk).map Block.addr).count a

/-- No block has counted more misses than it had. -/
def Backed (misses : ℕ → ℕ) (p : Pool) : Prop := ∀ b ∈ p.blocks, b.failed ≤ misses b.addr

lemma missed_of_full {n : ℕ} {align : Bool} {bs : List Block}
    (h : ∀ c ∈ bs, fit c n align = none) : missed n align bs = bs := by
  refine List.takeWhile_eq_self_iff.mpr fun c hc => ?_
  rw [h c hc]
  rfl

lemma Backed.served {misses misses' : ℕ → ℕ} {p q : Pool} {n : ℕ} {align : Bool}
    (h : Backed misses p) (hq : Served p n align q)
    (hcount : ∀ a, misses' a =
      misses a + ((missed n align p.walk).map Block.addr).count a) : Backed misses' q := by
  have hle : ∀ b ∈ p.blocks, b.failed ≤ misses' b.addr := by
    intro b hb
    have hb' := h b hb
    have hmore := hcount b.addr
    omega
  cases hq with
  | failed => exact hle
  | @fitted l₁ l₂ b m hwalk _ _ =>
    intro c hc
    have hblocks : p.blocks = p.before ++ (l₁ ++ b :: l₂) := by
      rw [← hwalk, Pool.before_append_walk]
    have hc' : c = { b with last := wadd m n } ∨ c ∈ p.blocks := by
      simp only [hblocks, List.mem_append, List.mem_cons] at hc ⊢
      tauto
    rcases hc' with rfl | hc'
    · exact hle b (by simp [hblocks])
    · exact hle c hc'
  | @added new t hnone hnew =>
    rw [missed_of_full hnone] at hcount
    intro c hc
    rcases List.mem_append.mp hc with hc | hc
    · rcases List.mem_append.mp hc with hc | hc
      · exact hle c (p.before_append_walk ▸ List.mem_append_left _ hc)
      · -- every block of the search was missed, and counts at most this miss
        obtain ⟨d, hd, haddr, hfailed⟩ := exists_of_mem_blockLoop hc
        have hd' := h d (Pool.mem_of_walk hd)
        have hmore := hcount d.addr
        have hone := List.count_pos_iff.mpr (List.mem_map_of_mem (f := Block.addr) hd)
        rw [haddr]
        omega
    · rw [List.mem_singleton] at hc
      rw [hc, hnew]
      exact Nat.zero_le _

/-- The state of a pool whose counters fall by at least `gap`, and its misses. -/
structure Counted (S gap : ℕ) (p : State × (ℕ → ℕ)) : Prop where
  inv : Inv S [] p.1
  counters : ∃ c : Misses, c.Sorted gap ∧ Counts c p.1.world.pool
  backed : Backed p.2 p.1.world.pool

lemma Counted.apply {gap : ℕ} {misses : ℕ → ℕ} (h : Counted S gap (s, misses))
    (hgap : gap ≤ 1) {op : Op} (hop : op ≠ .reset) :
    Counted S gap (s.apply A op, countMisses A s op misses) := by
  obtain ⟨c, hc, hcounts⟩ := h.counters
  obtain ⟨q, large, hq, hpool⟩ := leftBy_apply (A := A) (s := s) hop
  have hcount : ∀ a, countMisses A s op misses a = misses a + (op.small A s.world).elim 0
      fun (n, align) => ((missed n align s.world.pool.walk).map Block.addr).count a :=
    fun a => if_neg hop
  -- the large list takes no part
  have hleft : (∃ c : Misses, c.Sorted gap ∧ Counts c q) ∧
      Backed (countMisses A s op misses) q := by
    cases hsmall : op.small A s.world with
    | none =>
      rw [hsmall] at hq hcount
      cases hq
      refine ⟨⟨c, hc, hcounts⟩, fun b hb => ?_⟩
      rw [hcount]
      exact h.backed b hb
    | some request =>
      rw [hsmall] at hq hcount
      refine ⟨?_, h.backed.served hq hcount⟩
      rcases hcounts.served hc.weaken h.inv.chained hq with hcounts' | hcounts'
      · exact ⟨c, hc, hcounts'⟩
      · exact ⟨c.grow, hc.grow hgap, hcounts'⟩
  obtain ⟨⟨c', hc', hcounts'⟩, hbacked⟩ := hleft
  refine ⟨h.inv.apply op, ⟨c', hc', ?_⟩, ?_⟩
  · show Counts c' (s.apply A op).world.pool
    rw [hpool]
    exact ⟨hcounts'.before, hcounts'.walk⟩
  · show Backed _ (s.apply A op).world.pool
    rw [hpool]
    exact hbacked

lemma Counted.reset {misses : ℕ → ℕ} (h : Counted S 0 (s, misses)) :
    Counted S 0 (s.apply A .reset, countMisses A s .reset misses) := by
  obtain ⟨c, -, hcounts⟩ := h.counters
  refine ⟨h.inv.apply (A := A) .reset,
    ⟨c.reset, Misses.Sorted.reset, hcounts.reset h.inv.chained⟩, ?_⟩
  intro b hb
  have hblocks : (ngxResetPool s.world).pool.blocks = s.world.pool.blocks.map fun b =>
      { b with last := wadd b.addr sizeofPool, failed := 0 } := rewindLoop_eq _ _
  have hb' : b ∈ (ngxResetPool s.world).pool.blocks := hb
  rw [hblocks] at hb'
  obtain ⟨c, -, rfl⟩ := List.mem_map.mp hb'
  exact Nat.zero_le _

/-- A new pool is one block, as a reset would leave it. -/
lemma create_split {pagesize : ℕ} {p : Pool} {t : Trace}
    (hp : ngxCreatePool A pagesize [] S = (some p, t)) :
    ∃ b, p.blocks = [b] ∧ p.before = [] ∧ p.walk = [b] ∧ b.rewind = b := by
  obtain ⟨b, hblocks, hcur, hb⟩ : ∃ b, p.blocks = [b] ∧ b.addr = p.current ∧ b.rewind = b := by
    obtain ⟨a, -, -, rfl⟩ := ngxCreatePool_some hp
    exact ⟨_, rfl, rfl, rfl⟩
  have hhead : [b].head?.map Block.addr = some p.current := by rw [← hcur]; rfl
  obtain ⟨hfst, hsnd⟩ := Pool.split_eq (hblocks.trans (List.nil_append _).symm) (by simp) hhead
  exact ⟨b, hblocks, hfst, hsnd, hb⟩

lemma Counted.create {pagesize : ℕ} (gap : ℕ) (hmin : ngxMinPoolSize ≤ S)
    (hdvd : ngxAlignment ∣ S) (hs : (system A pagesize S).init s) :
    Counted S gap (s, fun _ => 0) := by
  have hinv := inv_of_reachable hmin hdvd (.init hs)
  obtain ⟨b, hblocks, hfst, hsnd, hb⟩ := create_split (Prod.ext hs.1 hs.2.1)
  have hfailed : b.failed = 0 := by
    rw [← hb]
    rfl
  refine ⟨hinv, ⟨⟨[], []⟩, ⟨by simp, by simp, .nil⟩, ?_, ?_⟩, ?_⟩
  · rw [hfst, List.map_nil]
  · rw [hsnd, List.map_singleton, hfailed]
    rfl
  · intro c hc
    rw [hblocks, List.mem_singleton] at hc
    rw [hc, hfailed]

/-- The counters fall throughout a run, and strictly while there is no reset. -/
lemma counted_of_exec {pagesize : ℕ} (gap : ℕ) (hmin : ngxMinPoolSize ≤ S) (hdvd : ngxAlignment ∣ S)
    (hgap : gap ≤ 1) {s₀ : State} {misses : ℕ → ℕ} {ops : List Op}
    (hs : (system A pagesize S).init s₀) (hops : gap = 0 ∨ .reset ∉ ops)
    (he : ((system A pagesize S).withHistory (fun _ => 0) (countMisses A)).exec
      (s₀, fun _ => 0) ops = some (s, misses)) : Counted S gap (s, misses) := by
  have hreach : ((system A pagesize S).withHistory (fun _ => 0) (countMisses A)).Reach
      (fun _ op => gap = 0 ∨ op ≠ .reset) (s, misses) := by
    refine System.Reach.exec (.init ⟨hs, rfl⟩) ?_ he
    exact fun _ op hop => hops.imp_right fun hno heq => hno (heq ▸ hop)
  refine hreach.invariant ?_ ?_
  · rintro ⟨s, misses⟩ ⟨hs, rfl⟩
    exact .create gap hmin hdvd hs
  · rintro ⟨s, misses⟩ op ⟨s', misses'⟩ h hok hstep
    cases hstep
    by_cases hop : op = .reset
    · obtain rfl := hok.resolve_right (not_not_intro hop)
      rw [hop]
      exact h.reset
    · exact h.apply hgap hop

/-- The search of a small request reads at most as many headers as there are blocks. -/
lemma smallLoop_length_le (n : ℕ) (align : Bool) (bs : List Block) (t : Trace) :
    (smallLoop n align bs t).2.2.length ≤ t.length + bs.length := by
  induction bs generalizing t with
  | nil => exact Nat.le_refl _
  | cons b bs ih =>
    simp only [smallLoop]
    cases fit b n align with
    | some m => simp [touch]
    | none =>
      have hrest := ih (touch t b.addr sizeofPoolData)
      simp only [touch, List.length_cons] at hrest ⊢
      omega

/-- In a pool of any history `current` stands in the chain behind the blocks that were
missed six times; from there on no block was, the counters never increase, and the last
one is zero. Without a reset at most seven blocks are searched. -/
theorem current_behind_missed (A : Malloc) (pagesize S : ℕ) (hmin : ngxMinPoolSize ≤ S)
    (hdvd : ngxAlignment ∣ S) {s₀ s : State} {misses : ℕ → ℕ} (ops : List Op)
    (hs : (system A pagesize S).init s₀)
    (he : ((system A pagesize S).withHistory (fun _ => 0) (countMisses A)).exec
      (s₀, fun _ => 0) ops = some (s, misses)) :
    s.world.pool.before ++ s.world.pool.walk = s.world.pool.blocks ∧
    s.world.pool.walk.head?.map Block.addr = some s.world.pool.current ∧
    (∀ b ∈ s.world.pool.before, b.failed = 6 ∧ 6 ≤ misses b.addr) ∧
    (∀ b ∈ s.world.pool.walk, b.failed ≤ 5) ∧
    s.world.pool.walk.Pairwise (fun b c => c.failed ≤ b.failed) ∧
    s.world.pool.walk.getLast?.map Block.failed = some 0 ∧
    (.reset ∉ ops → s.world.pool.walk.length ≤ 7 ∧ ∀ n align t,
      (smallLoop n align s.world.pool.walk t).2.2.length ≤ t.length + 7) := by
  obtain ⟨hinv, ⟨c, hc, hcounts⟩, hbacked⟩ :=
    counted_of_exec 0 hmin hdvd (by omega) hs (.inl rfl) he
  have hwalk : ∀ b ∈ s.world.pool.walk, b.failed ∈ c.older ++ [0] := fun b hb =>
    hcounts.walk ▸ List.mem_map_of_mem hb
  refine ⟨s.world.pool.before_append_walk, Pool.walk_head hinv.chain.current, ?_, ?_, ?_, ?_, ?_⟩
  · intro b hb
    have hsix : b.failed = 6 := hc.skipped _ (hcounts.before ▸ List.mem_map_of_mem hb)
    have hle := hbacked b (s.world.pool.before_append_walk ▸ List.mem_append_left _ hb)
    exact ⟨hsix, hsix ▸ hle⟩
  · intro b hb
    rcases List.mem_append.mp (hwalk b hb) with hb | hb
    · exact hc.searched _ hb
    · rw [List.mem_singleton] at hb
      omega
  · have hsorted : (c.older ++ [0]).Pairwise fun m n => n ≤ m :=
      List.pairwise_append.mpr ⟨hc.order, by simp, by simp⟩
    rw [← hcounts.walk, List.pairwise_map] at hsorted
    exact hsorted
  · rw [← List.getLast?_map, hcounts.walk]
    simp
  · intro hops
    obtain ⟨-, ⟨d, hd, hdcounts⟩, -⟩ :=
      counted_of_exec 1 hmin hdvd le_rfl hs (.inr hops) he
    have hseven : s.world.pool.walk.length ≤ 7 := by
      have hwalk : s.world.pool.walk.length = d.older.length + 1 := hdcounts.length_walk
      have := hd.length_le
      omega
    refine ⟨hseven, fun n align t => ?_⟩
    have := smallLoop_length_le n align s.world.pool.walk t
    omega

/-- Every request fills a block; the eighth leaves the first block behind. -/
theorem current_behind_missed_eighth : ∃ s misses,
    ((system bump 4096 96).withHistory (fun _ => 0) (countMisses bump)).exec
      (smallPool, fun _ => 0) (List.replicate 8 (.palloc 40)) = some (s, misses) ∧
    s.world.pool.before.map Block.failed = [6] ∧
    (∀ b ∈ s.world.pool.before, b.failed = 6 ∧ 6 ≤ misses b.addr) ∧
    s.world.pool.walk.length ≤ 7 := by
  refine ⟨_, _, rfl, by decide +kernel, ?_⟩
  obtain ⟨-, -, hbefore, -, -, -, hfew⟩ := current_behind_missed bump 4096 96 (by decide)
    (by decide) (List.replicate 8 (.palloc 40)) smallPool_init rfl
  exact ⟨hbefore, (hfew (by decide)).1⟩

end ShareBike.MemoryPool
