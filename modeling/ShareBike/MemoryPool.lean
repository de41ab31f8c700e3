import ShareBike.Lib.AllocTrace
import ShareBike.Lib.Transition

/-!
# The memory pool

A pool is a chain of equal blocks that `malloc` returned. Each block starts with
a header; the first header is a whole `ngx_pool_t`, the others only its first
part, `ngx_pool_data_t`. Small requests advance `last` in the first block that
has room. Large requests get a region of their own, and a node of the list
`large`, itself a small allocation, remembers it.

The chain and the list are Lean lists; every header and node keeps its address,
`0` is the null pointer, and each access to a header or a node is recorded in
the trace together with the calls of `malloc` and `free`.
-/
namespace ShareBike.MemoryPool
open ShareBike.Lib

/-- `sizeof(ngx_pool_data_t)`: `last`, `end`, `next` and `failed`. -/
def sizeofPoolData : ℕ := 32

/-- `sizeof(ngx_pool_t)`: the former with `max`, `current` and `large`. -/
def sizeofPool : ℕ := 56

/-- `sizeof(ngx_pool_large_t)`: `next` and `alloc`. -/
def sizeofPoolLarge : ℕ := 16

/-- `NGX_ALIGNMENT`, the size of an `unsigned long`. -/
def ngxAlignment : ℕ := 8

def ngxPoolAlignment : ℕ := 16

/-- `NGX_MIN_POOL_SIZE`. -/
def ngxMinPoolSize : ℕ := alignUp (sizeofPool + 2 * sizeofPoolLarge) ngxPoolAlignment

def NGX_OK : ℤ := 0
def NGX_DECLINED : ℤ := -5

/-- The header of the block at `addr`; the chain is the order of the list. -/
structure Block where
  addr : ℕ
  last : ℕ
  endp : ℕ
  failed : ℕ
  deriving DecidableEq, Repr

/-- The node at `addr`; `alloc` is the large region, or null. -/
structure Large where
  addr : ℕ
  alloc : ℕ
  deriving DecidableEq, Repr

structure Pool where
  addr : ℕ
  blocks : List Block
  max : ℕ
  current : ℕ
  large : List Large
  deriving DecidableEq, Repr

/-- A pool together with what was done to the memory so far. -/
structure World where
  pool : Pool
  trace : Trace
  deriving DecidableEq

abbrev Malloc := Allocator ngxPoolAlignment

def touch (t : Trace) (addr size : ℕ) : Trace := .access ⟨addr, size⟩ :: t

/-- `ngx_alloc`, and `ngx_memalign`, which ignores its alignment. -/
def ngxAlloc (A : Malloc) (t : Trace) (size : ℕ) : Option ℕ × Trace :=
  (A.malloc t size, .malloc size (A.malloc t size) :: t)

def ngxFree (t : Trace) (addr : ℕ) : Trace := .free addr :: t

def ngxCreatePool (A : Malloc) (pagesize : ℕ) (t : Trace) (size : ℕ) : Option Pool × Trace :=
  match ngxAlloc A t size with
  | (none, t) => (none, t)
  | (some p, t) =>
    let rest := wsub size sizeofPool
    let maxAlloc := wsub pagesize 1
    (some {
      addr := p
      blocks := [⟨p, wadd p sizeofPool, wadd p size, 0⟩]
      max := if rest < maxAlloc then rest else maxAlloc
      current := p
      large := [] }, touch t p sizeofPool)

namespace Pool

/-- The blocks before `pool->current`. -/
def before (p : Pool) : List Block := p.blocks.takeWhile (·.addr ≠ p.current)

/-- The blocks from `pool->current` on. -/
def walk (p : Pool) : List Block := p.blocks.dropWhile (·.addr ≠ p.current)

@[simp] lemma before_append_walk (p : Pool) : p.before ++ p.walk = p.blocks :=
  List.takeWhile_append_dropWhile

end Pool

/-- The place of `size` bytes in a block, if they fit. -/
def fit (b : Block) (size : ℕ) (align : Bool) : Option ℕ :=
  let m := if align then alignUp b.last ngxAlignment else b.last
  if size ≤ wsub b.endp m then some m else none

/-- The `do ... while (p)` of `ngx_palloc_small`. -/
def smallLoop (size : ℕ) (align : Bool) : List Block → Trace → Option ℕ × List Block × Trace
  | [], t => (none, [], t)
  | b :: bs, t =>
    let t := touch t b.addr sizeofPoolData
    match fit b size align with
    | some m => (some m, { b with last := wadd m size } :: bs, t)
    | none =>
      let r := smallLoop size align bs t
      (r.1, b :: r.2.1, r.2.2)

/-- The `for` of `ngx_palloc_block`: every block from `current` to the last but
one counts a miss, and `current` moves past those that missed more than four. -/
def blockLoop : List Block → ℕ → Trace → List Block × ℕ × Trace
  | [], current, t => ([], current, t)
  | [p], current, t => ([p], current, touch t p.addr sizeofPoolData)
  | p :: q :: bs, current, t =>
    let r := blockLoop (q :: bs) (if p.failed > 4 then q.addr else current)
      (touch t p.addr sizeofPoolData)
    ({ p with failed := p.failed + 1 } :: r.1, r.2.1, r.2.2)

/-- `(size_t) (pool->d.end - (u_char *) pool)`. -/
def Pool.psize (p : Pool) : ℕ :=
  match p.blocks with
  | [] => 0
  | b :: _ => wsub b.endp p.addr

def ngxPallocBlock (A : Malloc) (w : World) (size : ℕ) : Option ℕ × World :=
  let psize := w.pool.psize
  match ngxAlloc A (touch w.trace w.pool.addr sizeofPool) psize with
  | (none, t) => (none, { w with trace := t })
  | (some new, t) =>
    let m := alignUp (wadd new sizeofPoolData) ngxAlignment
    let t := touch t new sizeofPoolData
    let r := blockLoop w.pool.walk w.pool.current t
    (some m, {
      pool := { w.pool with
        blocks := w.pool.before ++ r.1 ++ [⟨new, wadd m size, wadd new psize, 0⟩]
        current := r.2.1 }
      trace := r.2.2 })

def ngxPallocSmall (A : Malloc) (w : World) (size : ℕ) (align : Bool) : Option ℕ × World :=
  let t := touch w.trace w.pool.addr sizeofPool
  match smallLoop size align w.pool.walk t with
  | (some m, walk, t) => (some m, ⟨{ w.pool with blocks := w.pool.before ++ walk }, t⟩)
  | (none, _, t) => ngxPallocBlock A { w with trace := t } size

/-- The search for an empty node in `ngx_palloc_large`; it gives up after five. -/
def reuseLoop (p : ℕ) : ℕ → List Large → Trace → Option (List Large) × Trace
  | _, [], t => (none, t)
  | n, l :: ls, t =>
    let t := touch t l.addr sizeofPoolLarge
    if l.alloc = 0 then (some ({ l with alloc := p } :: ls), t)
    else if n > 3 then (none, t)
    else
      let r := reuseLoop p (n + 1) ls t
      (r.1.map (l :: ·), r.2)

/-- The common end of `ngx_palloc_large` and `ngx_pmemalign`: a new node at the
head of the list, or the region `p` is given back. -/
def pushLarge (A : Malloc) (w : World) (p : ℕ) : Option ℕ × World :=
  match ngxPallocSmall A w sizeofPoolLarge true with
  | (none, w) => (none, { w with trace := ngxFree w.trace p })
  | (some l, w) =>
    let t := touch (touch w.trace l sizeofPoolLarge) w.pool.addr sizeofPool
    (some p, ⟨{ w.pool with large := ⟨l, p⟩ :: w.pool.large }, t⟩)

def ngxPallocLarge (A : Malloc) (w : World) (size : ℕ) : Option ℕ × World :=
  match ngxAlloc A w.trace size with
  | (none, t) => (none, { w with trace := t })
  | (some p, t) =>
    match reuseLoop p 0 w.pool.large (touch t w.pool.addr sizeofPool) with
    | (some large, t) => (some p, ⟨{ w.pool with large := large }, t⟩)
    | (none, t) => pushLarge A { w with trace := t } p

/-- The common body of `ngx_palloc` and `ngx_pnalloc`. -/
def pallocWith (A : Malloc) (w : World) (size : ℕ) (align : Bool) : Option ℕ × World :=
  let w := { w with trace := touch w.trace w.pool.addr sizeofPool }
  if size ≤ w.pool.max then ngxPallocSmall A w size align else ngxPallocLarge A w size

def ngxPalloc (A : Malloc) (w : World) (size : ℕ) : Option ℕ × World := pallocWith A w size true

def ngxPnalloc (A : Malloc) (w : World) (size : ℕ) : Option ℕ × World := pallocWith A w size false

def ngxPmemalign (A : Malloc) (w : World) (size _alignment : ℕ) : Option ℕ × World :=
  match ngxAlloc A w.trace size with
  | (none, t) => (none, { w with trace := t })
  | (some p, t) => pushLarge A { w with trace := t } p

/-- `ngx_palloc`, then `ngx_memzero` over the whole range. -/
def ngxPcalloc (A : Malloc) (w : World) (size : ℕ) : Option ℕ × World :=
  match ngxPalloc A w size with
  | (none, w) => (none, w)
  | (some p, w) => (some p, { w with trace := touch w.trace p size })

/-- The `for` of `ngx_pfree`; the flag tells whether a node held `p`. -/
def pfreeLoop (p : ℕ) : List Large → Trace → Bool × List Large × Trace
  | [], t => (false, [], t)
  | l :: ls, t =>
    let t := touch t l.addr sizeofPoolLarge
    if p = l.alloc then (true, { l with alloc := 0 } :: ls, ngxFree t l.alloc)
    else
      let r := pfreeLoop p ls t
      (r.1, l :: r.2.1, r.2.2)

def ngxPfree (w : World) (p : ℕ) : ℤ × World :=
  let r := pfreeLoop p w.pool.large (touch w.trace w.pool.addr sizeofPool)
  (if r.1 then NGX_OK else NGX_DECLINED, ⟨{ w.pool with large := r.2.1 }, r.2.2⟩)

/-- The first loop of `ngx_reset_pool` and of `ngx_destroy_pool`: a node is read
again, for `l->next`, after its region was freed. -/
def freeLarge : List Large → Trace → Trace
  | [], t => t
  | l :: ls, t =>
    let t := touch t l.addr sizeofPoolLarge
    let t := if l.alloc = 0 then t else ngxFree t l.alloc
    freeLarge ls (touch t l.addr sizeofPoolLarge)

/-- The second loop of `ngx_reset_pool`. -/
def rewindLoop : List Block → Trace → List Block × Trace
  | [], t => ([], t)
  | b :: bs, t =>
    let r := rewindLoop bs (touch t b.addr sizeofPoolData)
    ({ b with last := wadd b.addr sizeofPool, failed := 0 } :: r.1, r.2)

def ngxResetPool (w : World) : World :=
  let t := freeLarge w.pool.large (touch w.trace w.pool.addr sizeofPool)
  let r := rewindLoop w.pool.blocks t
  ⟨{ w.pool with blocks := r.1, current := w.pool.addr, large := [] },
    touch r.2 w.pool.addr sizeofPool⟩

/-- The second loop of `ngx_destroy_pool`, at the block `p` with the chain after
it: `n` was read before `p` is freed, and `n->d.next` is read next. -/
def freeBlocks : Block → List Block → Trace → Trace
  | p, [], t => ngxFree t p.addr
  | p, n :: ns, t => freeBlocks n ns (touch (ngxFree t p.addr) n.addr sizeofPoolData)

def ngxDestroyPool (w : World) : Trace :=
  let t := freeLarge w.pool.large (touch w.trace w.pool.addr sizeofPool)
  match w.pool.blocks with
  | [] => t
  | p :: ns => freeBlocks p ns (touch t p.addr sizeofPoolData)

/-- An allocation that the caller still holds. -/
structure Alloc where
  ptr : ℕ
  size : ℕ
  aligned : Bool
  deriving DecidableEq

def Alloc.region (x : Alloc) : Region := ⟨x.ptr, x.size⟩

inductive Op
  | palloc (size : ℕ)
  | pnalloc (size : ℕ)
  | pcalloc (size : ℕ)
  | pmemalign (size alignment : ℕ)
  | pfree (p : ℕ)
  | reset
  deriving DecidableEq

/-- The pool with the allocations returned since the last reset and not freed. -/
structure State where
  world : World
  allocs : List Alloc

/-- The caller keeps the pointer that a request returned. -/
def State.hold (s : State) (r : Option ℕ × World) (size : ℕ) (aligned : Bool) : State :=
  match r with
  | (none, w) => { s with world := w }
  | (some p, w) => ⟨w, ⟨p, size, aligned⟩ :: s.allocs⟩

def State.apply (A : Malloc) (s : State) : Op → State
  | .palloc n => s.hold (ngxPalloc A s.world n) n true
  | .pnalloc n => s.hold (ngxPnalloc A s.world n) n false
  | .pcalloc n => s.hold (ngxPcalloc A s.world n) n true
  | .pmemalign n a => s.hold (ngxPmemalign A s.world n a) n false
  | .pfree p =>
    match ngxPfree s.world p with
    | (rc, w) => ⟨w, if rc = NGX_OK then s.allocs.filter (·.ptr ≠ p) else s.allocs⟩
  | .reset => ⟨ngxResetPool s.world, []⟩

/-- The life of a pool of the given size: it is created, and then used. -/
def system (A : Malloc) (pagesize size : ℕ) : System State Op where
  init s := (ngxCreatePool A pagesize [] size).1 = some s.world.pool ∧
    (ngxCreatePool A pagesize [] size).2 = s.world.trace ∧ s.allocs = []
  step s op := some (s.apply A op)

end ShareBike.MemoryPool
