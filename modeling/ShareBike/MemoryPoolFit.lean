import ShareBike.MemoryPoolSafety

/-!
# The fit test in pools of any size

The size of a pool need not be a multiple of `NGX_ALIGNMENT`. An unaligned request may
then leave `last` so close to `end` that rounding it up passes `end`; the unsigned
difference of the fit test wraps, and the block takes a request for which it has no
room. Nothing else goes wrong: the test is right in every other block.
-/
namespace ShareBike.MemoryPool
open ShareBike.Lib

variable {A : Malloc} {S : ℕ} {s : State} {b : Block} {size : ℕ}

/-- Where the fit test would place a request. -/
def Block.place (b : Block) (align : Bool) : ℕ :=
  if align then alignUp b.last ngxAlignment else b.last

/-- The search of an aligned request comes to a block in which rounding up `last` passes
`end`; blocks without room for the request are passed over. -/
def Overshoots (size : ℕ) : List Block → Prop
  | [] => False
  | b :: bs => b.endp < b.place true ∨ b.endp < b.place true + size ∧ Overshoots size bs

instance decidableOvershoots (size : ℕ) : ∀ bs, Decidable (Overshoots size bs)
  | [] => isFalse id
  | b :: bs =>
    have := decidableOvershoots size bs
    inferInstanceAs (Decidable (b.endp < b.place true ∨
      b.endp < b.place true + size ∧ Overshoots size bs))

/-- The small request that a large one of `n` bytes makes for its node. -/
def largeSmall (A : Malloc) (w : World) (n : ℕ) : Option (ℕ × Bool) :=
  match ngxAlloc A w.trace n with
  | (none, _) => none
  | (some p, t) =>
    match reuseLoop p 0 w.pool.large (touch t w.pool.addr sizeofPool) with
    | (some _, _) => none
    | (none, _) => some (sizeofPoolLarge, true)

/-- The call of `ngx_palloc_small` that the common body of `ngx_palloc` and `ngx_pnalloc`
makes: its size, and whether it is aligned. -/
def smallWith (A : Malloc) (w : World) (n : ℕ) (align : Bool) : Option (ℕ × Bool) :=
  if n ≤ w.pool.max then some (n, align)
  else largeSmall A { w with trace := touch w.trace w.pool.addr sizeofPool } n

/-- The call of `ngx_palloc_small` that an operation makes. -/
def Op.small (A : Malloc) (w : World) : Op → Option (ℕ × Bool)
  | palloc n => smallWith A w n true
  | pnalloc n => smallWith A w n false
  | pcalloc n => smallWith A w n true
  | pmemalign n _ => (A.malloc w.trace n).map fun _ => (sizeofPoolLarge, true)
  | pfree _ => none
  | reset => none

/-- No aligned request comes to a block in which rounding up passes `end`. -/
def NoOvershoot (A : Malloc) (s : State) (op : Op) : Prop :=
  ∀ n, op.small A s.world = some (n, true) → ¬ Overshoots n s.world.pool.walk

/-- The first block that the fit test accepts has room for the request. -/
def RoomIn (bs : List Block) (n : ℕ) (align : Bool) : Prop :=
  ∀ b m, bs.find? (fun b => (fit b n align).isSome) = some b → fit b n align = some m →
    m + n ≤ b.endp

/-- The fit test accepts no block in which the request would pass `end`. -/
def FitsInside (A : Malloc) (s : State) (op : Op) : Prop :=
  ∀ n align, op.small A s.world = some (n, align) → RoomIn s.world.pool.walk n align

/-- `d.last <= d.end` in every block. -/
def LastInBlock (s : State) : Prop := ∀ b ∈ s.world.pool.blocks, b.last ≤ b.endp

/-- A block of `S` bytes with `last` inside. -/
structure BlockBounds (S : ℕ) (b : Block) : Prop where
  aligned : ngxPoolAlignment ∣ b.addr
  endp_eq : b.endp = b.addr + S
  endp_lt : b.endp < wordSize
  last_le : b.last ≤ b.endp

/-- A pool of blocks of `S` bytes; `S` need not be aligned. -/
structure Bounds (S : ℕ) (p : Pool) : Prop where
  min_size : ngxMinPoolSize ≤ S
  first : p.blocks.head?.map Block.addr = some p.addr
  block : ∀ b ∈ p.blocks, BlockBounds S b
  max_le : p.max + sizeofPool ≤ S

lemma fit_eq_place (b : Block) (size : ℕ) (align : Bool) :
    fit b size align = if size ≤ wsub b.endp (b.place align) then some (b.place align) else none :=
  rfl

/-- Unless rounding up passes `end`, the test accepts exactly the requests that fit. -/
lemma fit_of_place_le (hb : BlockBounds S b) {align : Bool} (hplace : b.place align ≤ b.endp) :
    fit b size align = if b.place align + size ≤ b.endp then some (b.place align) else none := by
  rw [fit_eq_place, wsub_of_le hplace hb.endp_lt]
  refine if_congr ?_ rfl rfl
  omega

lemma place_false_le (hb : BlockBounds S b) : b.place false ≤ b.endp := hb.last_le

/-- Rounding up adds less than the alignment, or wraps. -/
lemma place_lt (hb : BlockBounds S b) (hover : b.endp < b.place true) :
    b.place true < wordSize ∧ b.place true ≤ b.endp + 7 := by
  have hlast := hb.last_le
  have hlt := hb.endp_lt
  have hpow : ngxAlignment = 2 ^ 3 := rfl
  by_cases hwrap : b.last + (2 ^ 3 - 1) < wordSize
  · have hval : b.place true = (b.last + (2 ^ 3 - 1)) / 2 ^ 3 * 2 ^ 3 := by
      show alignUp b.last ngxAlignment = _
      rw [hpow, alignUp_eq (by decide) hwrap]
    have hle := Nat.div_mul_le_self (b.last + (2 ^ 3 - 1)) (2 ^ 3)
    omega
  · -- the sum wraps to less than the alignment, and the mask clears it
    have hsmall : wadd b.last (ngxAlignment - 1) < 8 := by
      rw [hpow, wadd]
      simp only [wordSize] at hlt hwrap ⊢
      omega
    have hval : b.place true ≤ wadd b.last (ngxAlignment - 1) := Nat.and_le_left
    simp only [wordSize] at hlt hwrap ⊢
    omega

/-- Where rounding up passes `end`, the difference wraps and any request is accepted. -/
lemma fit_of_overshoot (hb : BlockBounds S b) (hover : b.endp < b.place true)
    (hsize : size + sizeofPool ≤ S) : fit b size true = some (b.place true) := by
  obtain ⟨hlt, hle⟩ := place_lt hb hover
  have hend := hb.endp_eq
  have hendlt := hb.endp_lt
  have hpool : sizeofPool = 56 := rfl
  have hdiff : wsub b.endp (b.place true) = b.endp + (wordSize - b.place true) :=
    Nat.mod_eq_of_lt (by omega)
  rw [fit_eq_place, hdiff]
  refine if_pos ?_
  omega

/-- The block found by the search is one with room, exactly if the search does not
overshoot. -/
lemma roomIn_iff {bs : List Block} (hbs : ∀ b ∈ bs, BlockBounds S b)
    (hsize : size + sizeofPool ≤ S) : RoomIn bs size true ↔ ¬ Overshoots size bs := by
  induction bs with
  | nil => simp [RoomIn, Overshoots]
  | cons b bs ih =>
    have hb := hbs b List.mem_cons_self
    have hrest := ih fun c hc => hbs c (List.mem_cons_of_mem _ hc)
    by_cases hover : b.endp < b.place true
    · have hfit := fit_of_overshoot hb hover hsize
      have hfind : (b :: bs).find? (fun b => (fit b size true).isSome) = some b := by
        rw [List.find?_cons_of_pos]
        rw [hfit]
        rfl
      refine ⟨fun h => ?_, fun h => absurd (.inl hover) h⟩
      have hle := h b _ hfind hfit
      omega
    · have hfit : fit b size true =
          if b.place true + size ≤ b.endp then some (b.place true) else none :=
        fit_of_place_le hb (not_lt.mp hover)
      by_cases hroom : b.place true + size ≤ b.endp
      · rw [if_pos hroom] at hfit
        have hfind : (b :: bs).find? (fun b => (fit b size true).isSome) = some b := by
          rw [List.find?_cons_of_pos]
          rw [hfit]
          rfl
        refine ⟨fun _ => ?_, fun _ c m hc hm => ?_⟩
        · rintro (hnot | ⟨hnot, -⟩)
          · exact hover hnot
          · omega
        · rw [hfind] at hc
          cases hc
          rw [hfit] at hm
          cases hm
          exact hroom
      · rw [if_neg hroom] at hfit
        have hfind : (b :: bs).find? (fun b => (fit b size true).isSome) =
            bs.find? (fun b => (fit b size true).isSome) := by
          rw [List.find?_cons_of_neg]
          rw [hfit]
          simp
        rw [RoomIn, hfind, ← RoomIn, hrest]
        refine not_congr ⟨fun h => .inr ⟨not_le.mp hroom, h⟩, ?_⟩
        rintro (hnot | ⟨-, h⟩)
        · exact absurd hnot hover
        · exact h

/-- An unaligned request never overshoots. -/
lemma roomIn_unaligned {bs : List Block} (hbs : ∀ b ∈ bs, BlockBounds S b) (size : ℕ) :
    RoomIn bs size false := by
  intro b m hb hm
  have hbounds := hbs b (List.mem_of_find?_eq_some hb)
  rw [fit_of_place_le hbounds (place_false_le hbounds)] at hm
  obtain ⟨hroom, he⟩ := Option.ite_none_right_eq_some.mp hm
  cases he
  exact hroom

namespace Bounds

variable {w : World} {p : Pool} {n : ℕ} {align : Bool}

lemma walk (h : Bounds S p) : ∀ b ∈ p.walk, BlockBounds S b :=
  fun b hb => h.block b (Pool.mem_of_walk hb)

/-- Other blocks with the same bases. -/
lemma of_blocks (h : Bounds S p) {bs : List Block} (added : List ℕ)
    (haddr : bs.map Block.addr = p.blocks.map Block.addr ++ added)
    (hbs : ∀ b ∈ bs, BlockBounds S b) (current : ℕ) (large : List Large) :
    Bounds S ⟨p.addr, bs, p.max, current, large⟩ := by
  refine ⟨h.min_size, ?_, hbs, h.max_le⟩
  have hfirst := h.first
  rw [← List.head?_map] at hfirst ⊢
  show (bs.map Block.addr).head? = some p.addr
  rw [haddr, List.head?_append, hfirst]
  rfl

lemma psize_eq (h : Bounds S p) : p.psize = S :=
  Pool.psize_eq h.first fun b hb => ⟨(h.block b hb).endp_eq, (h.block b hb).endp_lt⟩

/-- A new block holds the request behind its header. -/
lemma pallocBlock (h : Bounds S w.pool) (hsize : n + sizeofPool ≤ S) :
    Bounds S (ngxPallocBlock A w n).2.pool := by
  simp only [ngxPallocBlock, ngxAlloc, h.psize_eq]
  cases hm : A.malloc (touch w.trace w.pool.addr sizeofPool) S with
  | none => exact h
  | some new =>
    dsimp only
    have haligned := A.aligned _ _ _ hm
    have hbound := A.bounded _ _ _ hm
    have hmin := h.min_size
    rw [ngxMinPoolSize_eq] at hmin
    have hsizes : sizeofPool = 56 ∧ sizeofPoolData = 32 := ⟨rfl, rfl⟩
    obtain ⟨hplace, -⟩ := place_in_new haligned (by rw [ngxMinPoolSize_eq]; omega)
    have hcore := blockLoop_core w.pool.walk w.pool.current
      (touch (.malloc S (some new) :: touch w.trace w.pool.addr sizeofPool) new sizeofPoolData)
    rw [hplace, wadd_of_lt (show new + sizeofPoolData + n < wordSize by omega),
      wadd_of_lt hbound]
    refine h.of_blocks [new] ?_ ?_ _ _
    · have hwalk := map_addr_of_core hcore
      rw [List.map_append, List.map_append, hwalk, ← List.map_append,
        Pool.before_append_walk]
      rfl
    · intro b hb
      rcases List.mem_append.mp hb with hb | hb
      · rcases List.mem_append.mp hb with hb | hb
        · refine h.block b ?_
          rw [← w.pool.before_append_walk]
          exact List.mem_append_left _ hb
        · obtain ⟨c, hc, he⟩ := exists_core hcore hb
          have hbounds := h.walk c hc
          simp only [Block.core, Prod.mk.injEq] at he
          obtain ⟨ha, hl, hend⟩ := he
          exact ⟨ha ▸ hbounds.aligned, by rw [← ha, ← hend]; exact hbounds.endp_eq,
            hend ▸ hbounds.endp_lt, by rw [← hl, ← hend]; exact hbounds.last_le⟩
      · rw [List.mem_singleton] at hb
        subst hb
        refine ⟨haligned, rfl, hbound, ?_⟩
        dsimp only
        omega

/-- A request that is placed in a block with room keeps `last` inside. -/
lemma pallocSmall (h : Bounds S w.pool) (hsize : n + sizeofPool ≤ S)
    (hroom : RoomIn w.pool.walk n align) : Bounds S (ngxPallocSmall A w n align).2.pool := by
  simp only [ngxPallocSmall]
  rcases hloop : smallLoop n align w.pool.walk (touch w.trace w.pool.addr sizeofPool) with
    ⟨_ | m, bs, t⟩
  · exact Bounds.pallocBlock (w := { w with trace := t }) h hsize
  · obtain ⟨l₁, b, l₂, hwalk, hnone, hfit, rfl⟩ := smallLoop_some hloop
    have hfind : w.pool.walk.find? (fun b => (fit b n align).isSome) = some b := by
      rw [hwalk, List.find?_eq_some_iff_append]
      refine ⟨by rw [hfit]; rfl, l₁, l₂, rfl, fun c hc => ?_⟩
      rw [hnone c hc]
      rfl
    have hend := hroom b m hfind hfit
    have hblocks : w.pool.blocks = w.pool.before ++ (l₁ ++ b :: l₂) := by
      rw [← hwalk, Pool.before_append_walk]
    have hb := h.block b (by simp [hblocks])
    refine h.of_blocks [] (by simp [hblocks]) ?_ _ _
    intro c hc
    have hc' : c = { b with last := wadd m n } ∨ c ∈ w.pool.blocks := by
      simp only [hblocks, List.mem_append, List.mem_cons] at hc ⊢
      tauto
    rcases hc' with rfl | hc'
    · refine ⟨hb.aligned, hb.endp_eq, hb.endp_lt, ?_⟩
      show wadd m n ≤ b.endp
      rw [wadd_of_lt (hend.trans_lt hb.endp_lt)]
      exact hend
    · exact h.block c hc'

lemma node_size (h : Bounds S p) : sizeofPoolLarge + sizeofPool ≤ S :=
  le_trans (by decide) h.min_size

lemma pushLarge (h : Bounds S w.pool) (hroom : RoomIn w.pool.walk sizeofPoolLarge true) (p : ℕ) :
    Bounds S (MemoryPool.pushLarge A w p).2.pool := by
  have hsmall := h.pallocSmall (A := A) h.node_size hroom
  simp only [MemoryPool.pushLarge]
  rcases hr : ngxPallocSmall A w sizeofPoolLarge true with ⟨_ | l, w'⟩ <;> rw [hr] at hsmall
  · exact hsmall
  · exact ⟨hsmall.min_size, hsmall.first, hsmall.block, hsmall.max_le⟩

lemma pallocLarge (h : Bounds S w.pool)
    (hroom : ∀ k al, largeSmall A w n = some (k, al) → RoomIn w.pool.walk k al) :
    Bounds S (ngxPallocLarge A w n).2.pool := by
  simp only [largeSmall, ngxPallocLarge, ngxAlloc] at hroom ⊢
  cases hm : A.malloc w.trace n with
  | none => exact h
  | some p =>
    simp only [hm] at hroom
    dsimp only
    rcases hr : reuseLoop p 0 w.pool.large (touch (.malloc n (some p) :: w.trace) w.pool.addr
      sizeofPool) with ⟨_ | large, t⟩
    · simp only [hr] at hroom
      exact Bounds.pushLarge (w := { w with trace := t }) h (hroom _ _ rfl) p
    · exact ⟨h.min_size, h.first, h.block, h.max_le⟩

lemma pallocWith (h : Bounds S w.pool)
    (hroom : ∀ k al, smallWith A w n align = some (k, al) → RoomIn w.pool.walk k al) :
    Bounds S (MemoryPool.pallocWith A w n align).2.pool := by
  simp only [smallWith, MemoryPool.pallocWith] at hroom ⊢
  split_ifs at hroom ⊢ with hn
  · have hsize : n + sizeofPool ≤ S := (Nat.add_le_add_right hn _).trans h.max_le
    exact Bounds.pallocSmall (w := { w with trace := touch w.trace w.pool.addr sizeofPool }) h
      hsize (hroom _ _ rfl)
  · exact Bounds.pallocLarge (w := { w with trace := touch w.trace w.pool.addr sizeofPool }) h
      hroom

lemma reset (h : Bounds S w.pool) : Bounds S (ngxResetPool w).pool := by
  simp only [ngxResetPool]
  rw [rewindLoop_eq]
  refine h.of_blocks [] (by simp [Function.comp_def]) ?_ _ _
  intro c hc
  obtain ⟨b, hb, rfl⟩ := List.mem_map.mp hc
  have hbounds := h.block b hb
  have hmin := h.min_size
  rw [ngxMinPoolSize_eq] at hmin
  have hend := hbounds.endp_eq
  have hlt := hbounds.endp_lt
  have hsize : sizeofPool = 56 := rfl
  refine ⟨hbounds.aligned, hend, hlt, ?_⟩
  show wadd b.addr sizeofPool ≤ b.endp
  rw [wadd_of_lt (by omega)]
  omega

end Bounds

lemma hold_world (s : State) (r : Option ℕ × World) (n : ℕ) (aligned : Bool) :
    (s.hold r n aligned).world = r.2 := by
  obtain ⟨_ | p, w⟩ := r <;> rfl

lemma Bounds.apply (h : Bounds S s.world.pool) {op : Op} (hfits : FitsInside A s op) :
    Bounds S (s.apply A op).world.pool := by
  cases op with
  | palloc n =>
    simp only [State.apply, hold_world]
    exact h.pallocWith hfits
  | pnalloc n =>
    simp only [State.apply, hold_world]
    exact h.pallocWith hfits
  | pcalloc n =>
    have hpalloc : Bounds S (MemoryPool.pallocWith A s.world n true).2.pool :=
      h.pallocWith hfits
    simp only [State.apply, hold_world, ngxPcalloc, ngxPalloc]
    rcases hr : MemoryPool.pallocWith A s.world n true with ⟨_ | p, w⟩ <;> rw [hr] at hpalloc <;>
      exact hpalloc
  | pmemalign n a =>
    simp only [State.apply, hold_world, ngxPmemalign, ngxAlloc]
    cases hm : A.malloc s.world.trace n with
    | none => exact h
    | some p =>
      have hroom := hfits sizeofPoolLarge true (by simp [Op.small, hm])
      exact Bounds.pushLarge (w := { s.world with trace := .malloc n (some p) :: s.world.trace }) h
        hroom p
  | pfree p => exact ⟨h.min_size, h.first, h.block, h.max_le⟩
  | reset => exact h.reset

lemma largeSmall_eq {w : World} {n k : ℕ} {al : Bool} (h : largeSmall A w n = some (k, al)) :
    k = sizeofPoolLarge := by
  simp only [largeSmall] at h
  split at h
  · cases h
  · split at h <;> cases h
    rfl

/-- The small requests of all operations are smaller than a block. -/
lemma Bounds.small_size (h : Bounds S s.world.pool) {op : Op} {k : ℕ} {al : Bool}
    (hop : op.small A s.world = some (k, al)) : k + sizeofPool ≤ S := by
  have hwith : ∀ n align, smallWith A s.world n align = some (k, al) → k + sizeofPool ≤ S := by
    intro n align hw
    simp only [smallWith] at hw
    split_ifs at hw with hn
    · cases hw
      exact (Nat.add_le_add_right hn _).trans h.max_le
    · rw [largeSmall_eq hw]
      exact h.node_size
  cases op with
  | palloc n | pnalloc n | pcalloc n => exact hwith n _ hop
  | pmemalign n a =>
    obtain ⟨_, -, he⟩ := Option.map_eq_some_iff.mp hop
    cases he
    exact h.node_size
  | pfree p | reset => cases hop

/-- A step keeps to the ends of the blocks exactly if it does not overshoot. -/
lemma Bounds.fitsInside_iff (h : Bounds S s.world.pool) (op : Op) :
    FitsInside A s op ↔ NoOvershoot A s op := by
  constructor
  · intro hfits n hop
    exact (roomIn_iff h.walk (h.small_size hop)).mp (hfits n true hop)
  · rintro hno n (_ | _) hop
    · exact roomIn_unaligned h.walk n
    · exact (roomIn_iff h.walk (h.small_size hop)).mpr (hno n hop)

lemma Bounds.create {pagesize : ℕ} {p : Pool} {t : Trace} (hmin : ngxMinPoolSize ≤ S)
    (hp : ngxCreatePool A pagesize [] S = (some p, t)) : Bounds S p := by
  obtain ⟨a, hm, -, rfl⟩ := ngxCreatePool_some hp
  have hbound := A.bounded _ _ _ hm
  have hmin' := hmin
  rw [ngxMinPoolSize_eq] at hmin'
  have hsize : sizeofPool = 56 := rfl
  have hend : wadd a S = a + S := wadd_of_lt hbound
  refine ⟨hmin, rfl, ?_, ?_⟩
  · intro b hb
    rw [List.mem_singleton] at hb
    subst hb
    refine ⟨A.aligned _ _ _ hm, hend, hend ▸ hbound, ?_⟩
    show wadd a sizeofPool ≤ wadd a S
    rw [hend, wadd_of_lt (by omega)]
    omega
  · have hrest : wsub S sizeofPool = S - sizeofPool := wsub_of_le (by omega) (by omega)
    simp only [hrest]
    split_ifs with hlt <;> omega

/-- In the life of a pool of any size the fit test accepts no block in which a request
would pass `end`, and `last` stays inside every block, exactly if no aligned request
comes to a block in which rounding up `last` passes `end`. -/
theorem fits_inside_iff (A : Malloc) (pagesize S : ℕ) (hmin : ngxMinPoolSize ≤ S) {s : State}
    (hs : (system A pagesize S).init s) (ops : List Op) :
    (system A pagesize S).Throughout LastInBlock s ops ∧
        (system A pagesize S).Along (FitsInside A) s ops ↔
      (system A pagesize S).Along (NoOvershoot A) s ops := by
  have hinit : Bounds S s.world.pool := .create hmin (Prod.ext hs.1 hs.2.1)
  refine System.throughout_and_along_iff (I := fun s => Bounds S s.world.pool) ?_ ?_ ?_ hinit ops
  · exact fun s h b hb => (h.block b hb).last_le
  · rintro s op s' h hok hstep
    cases hstep
    exact h.apply ((h.fitsInside_iff op).mpr hok)
  · exact fun s op h => h.fitsInside_iff op

/-- A pool of 97 bytes, as `bump` makes it. -/
def oddPool : State :=
  ⟨⟨⟨16, [⟨16, 72, 113, 0⟩], 41, 16, []⟩, [.access ⟨16, 56⟩, .malloc 97 (some 16)]⟩, []⟩

lemma oddPool_init : (system bump 4096 97).init oddPool := by
  refine ⟨?_, ?_, rfl⟩ <;> decide +kernel

/-- The first request leaves one byte, and the second takes it. -/
theorem fits_inside_iff_odd : (system bump 4096 97).Throughout LastInBlock oddPool
      [.pnalloc 40, .palloc 1] ∧
    (system bump 4096 97).Along (FitsInside bump) oddPool [.pnalloc 40, .palloc 1] := by
  refine (fits_inside_iff bump 4096 97 (by decide) oddPool_init _).mpr ?_
  rintro _ ⟨⟩
  refine ⟨fun n hn => ?_, ?_⟩
  · cases hn
  rintro _ ⟨⟩
  refine ⟨fun n hn => ?_, trivial⟩
  cases hn
  decide +kernel

/-- An unaligned request fills the pool; the next byte is placed seven bytes behind. -/
theorem last_passes_end : ∃ s, (system bump 4096 97).Reachable s ∧
    s.world.pool.blocks = [⟨16, 121, 113, 0⟩] ∧ ¬ LastInBlock s := by
  have hrun : ((system bump 4096 97).exec oddPool [.pnalloc 41, .palloc 1]).map
      (·.world.pool.blocks) = some [⟨16, 121, 113, 0⟩] := by
    decide +kernel
  obtain ⟨s, hs, hblocks⟩ := Option.map_eq_some_iff.mp hrun
  refine ⟨s, System.Reach.exec (.init oddPool_init) (fun _ _ _ => trivial) hs, hblocks, ?_⟩
  intro hlast
  have hle := hlast ⟨16, 121, 113, 0⟩ (by rw [hblocks]; exact List.mem_cons_self)
  exact absurd hle (by decide)

/-- A pool whose size is a multiple of the alignment never overshoots. -/
lemma Bounds.noOvershoot (h : Bounds S s.world.pool) (hdvd : ngxAlignment ∣ S) (op : Op) :
    NoOvershoot A s op := by
  intro n _
  have hplace : ∀ b ∈ s.world.pool.walk, b.place true ≤ b.endp := by
    intro b hb
    have hbounds := h.walk b hb
    have hend : ngxAlignment ∣ b.endp := by
      rw [hbounds.endp_eq]
      exact Nat.dvd_add (Nat.dvd_trans (by decide) hbounds.aligned) hdvd
    have hroom : b.last + (2 ^ 3 - 1) < wordSize := by
      have hlast := hbounds.last_le
      have hlt := hbounds.endp_lt
      obtain ⟨q, hq⟩ := hend
      simp only [ngxAlignment, wordSize] at hq hlt ⊢
      omega
    exact alignUp_le (k := 3) (by decide) hbounds.last_le hend hroom
  generalize s.world.pool.walk = bs at hplace
  induction bs with
  | nil => exact id
  | cons b bs ih =>
    rintro (hover | ⟨-, hrest⟩)
    · exact absurd hover (not_lt.mpr (hplace b List.mem_cons_self))
    · exact ih (fun c hc => hplace c (List.mem_cons_of_mem _ hc)) hrest

end ShareBike.MemoryPool
