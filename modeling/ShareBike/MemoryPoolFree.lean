import ShareBike.MemoryPoolCounters

/-!
# What `ngx_pfree` matches

A node of the large list keeps the address of its region until `ngx_pfree` empties it,
and an empty node may be given another region. Which addresses the nodes hold is
therefore a matter of the whole history: they are the large allocations made since the
last reset and not freed. Empty nodes hold the null pointer, and `ngx_pfree` compares
its argument with that as well.
-/
namespace ShareBike.MemoryPool
open ShareBike.Lib

variable {A : Malloc} {S : ℕ} {s : State} {w : World}

/-- What an operation that returned this large region, or none, leaves of the list. -/
inductive Remembers : Option ℕ → List Large → List Large → Prop
  | none {ls : List Large} : Remembers none ls ls
  | fill {l₁ l₂ : List Large} {n : Large} {p : ℕ} : n.alloc = 0 → p ≠ 0 →
      Remembers (some p) (l₁ ++ n :: l₂) (l₁ ++ ⟨n.addr, p⟩ :: l₂)
  | push {ls : List Large} {a p : ℕ} : p ≠ 0 → Remembers (some p) ls (⟨a, p⟩ :: ls)

lemma remembers_pushLarge {p : ℕ} (hp : p ≠ 0) :
    Remembers (pushLarge A w p).1 w.pool.large (pushLarge A w p).2.pool.large := by
  have hlarge := (ngxPallocSmall_served (A := A) w sizeofPoolLarge true).large_eq
  simp only [pushLarge]
  rcases hr : ngxPallocSmall A w sizeofPoolLarge true with ⟨_ | l, w'⟩ <;> rw [hr] at hlarge
  · rw [← hlarge]
    exact .none
  · rw [← hlarge]
    exact .push hp

lemma remembers_pallocLarge (n : ℕ) :
    Remembers (ngxPallocLarge A w n).1 w.pool.large (ngxPallocLarge A w n).2.pool.large := by
  simp only [ngxPallocLarge, ngxAlloc]
  cases hm : A.malloc w.trace n with
  | none => exact .none
  | some p =>
    dsimp only
    have hp : p ≠ 0 := (A.fresh _ _ _ hm).1
    rcases hr : reuseLoop p 0 w.pool.large (touch (.malloc n (some p) :: w.trace) w.pool.addr
      sizeofPool) with ⟨_ | large, t⟩
    · exact remembers_pushLarge (w := { w with trace := t }) hp
    · obtain ⟨l₁, l, l₂, hl, hempty, rfl⟩ := reuseLoop_some hr
      dsimp only
      rw [hl]
      exact .fill hempty hp

/-- The large region that an operation returns. -/
def Op.answer (A : Malloc) (w : World) : Op → Option ℕ
  | palloc n => if n ≤ w.pool.max then none else (ngxPalloc A w n).1
  | pnalloc n => if n ≤ w.pool.max then none else (ngxPnalloc A w n).1
  | pcalloc n => if n ≤ w.pool.max then none else (ngxPcalloc A w n).1
  | pmemalign n a => (ngxPmemalign A w n a).1
  | pfree _ => none
  | reset => none

lemma remembers_pallocWith (n : ℕ) (align : Bool) :
    Remembers (if n ≤ w.pool.max then none else (pallocWith A w n align).1) w.pool.large
      (pallocWith A w n align).2.pool.large := by
  simp only [pallocWith]
  split_ifs with hn
  · rw [(ngxPallocSmall_served _ n align).large_eq]
    exact .none
  · exact remembers_pallocLarge (w := { w with trace := touch w.trace w.pool.addr sizeofPool }) n

lemma remembers_apply {op : Op} (hfree : ∀ p, op ≠ .pfree p) (hreset : op ≠ .reset) :
    Remembers (op.answer A s.world) s.world.pool.large (s.apply A op).world.pool.large := by
  cases op with
  | palloc n | pnalloc n =>
    simp only [State.apply, hold_world]
    exact remembers_pallocWith n _
  | pcalloc n =>
    have hpalloc := remembers_pallocWith (A := A) (w := s.world) n true
    simp only [State.apply, hold_world, Op.answer, ngxPcalloc, ngxPalloc]
    rcases hr : pallocWith A s.world n true with ⟨_ | p, w⟩ <;> rw [hr] at hpalloc <;>
      exact hpalloc
  | pmemalign n a =>
    simp only [State.apply, hold_world, Op.answer, ngxPmemalign, ngxAlloc]
    cases hm : A.malloc s.world.trace n with
    | none => exact .none
    | some p =>
      exact remembers_pushLarge (w := { s.world with
        trace := .malloc n (some p) :: s.world.trace }) (A.fresh _ _ _ hm).1
  | pfree p => exact absurd rfl (hfree p)
  | reset => exact absurd rfl hreset

/-- The addresses that the nodes hold. -/
def heldBy (ls : List Large) : List ℕ := (ls.map Large.alloc).filter (· ≠ 0)

lemma heldBy_append (l₁ l₂ : List Large) : heldBy (l₁ ++ l₂) = heldBy l₁ ++ heldBy l₂ := by
  simp [heldBy]

lemma heldBy_cons_of_empty {l : Large} (h : l.alloc = 0) (ls : List Large) :
    heldBy (l :: ls) = heldBy ls := by
  simp [heldBy, h]

lemma heldBy_cons_of_ne {l : Large} (h : l.alloc ≠ 0) (ls : List Large) :
    heldBy (l :: ls) = l.alloc :: heldBy ls := by
  simp [heldBy, h]

lemma mem_heldBy {p : ℕ} {ls : List Large} :
    p ∈ heldBy ls ↔ p ≠ 0 ∧ ∃ l ∈ ls, l.alloc = p := by
  simp [heldBy, and_comm]

lemma Remembers.perm {r : Option ℕ} {ls ls' : List Large} (h : Remembers r ls ls') :
    (heldBy ls').Perm (r.toList ++ heldBy ls) := by
  cases h with
  | none => exact .refl _
  | fill hempty hp =>
    rw [heldBy_append, heldBy_append, heldBy_cons_of_ne hp, heldBy_cons_of_empty hempty]
    exact List.perm_middle
  | push hp =>
    rw [heldBy_cons_of_ne hp]
    exact .refl _

/-- The large allocations made since the last reset and not yet freed. -/
def keepLarge (A : Malloc) (s : State) (op : Op) (held : List ℕ) : List ℕ :=
  match op with
  | .pfree p => held.filter (· ≠ p)
  | .reset => []
  | op => (op.answer A s.world).toList ++ held

lemma keepLarge_eq {op : Op} (hfree : ∀ p, op ≠ .pfree p) (hreset : op ≠ .reset)
    (held : List ℕ) : keepLarge A s op held = (op.answer A s.world).toList ++ held := by
  cases op with
  | palloc n | pnalloc n | pcalloc n => rfl
  | pmemalign n a => rfl
  | pfree p => exact absurd rfl (hfree p)
  | reset => exact absurd rfl hreset

/-- The search of `ngx_pfree` ends at the first node that holds `p`. -/
lemma pfreeLoop_cases (p : ℕ) (ls : List Large) (t : Trace) :
    ∃ t', live t' = live t ∧ frees t' = frees t ∧
      ((∀ l ∈ ls, l.alloc ≠ p) ∧ pfreeLoop p ls t = (false, ls, t') ∨
        ∃ l₁ n l₂, ls = l₁ ++ n :: l₂ ∧ n.alloc = p ∧ (∀ l ∈ l₁, l.alloc ≠ p) ∧
          pfreeLoop p ls t = (true, l₁ ++ ⟨n.addr, 0⟩ :: l₂, ngxFree t' p)) := by
  induction ls generalizing t with
  | nil => exact ⟨t, rfl, rfl, .inl ⟨by simp, rfl⟩⟩
  | cons l ls ih =>
    by_cases hp : p = l.alloc
    · refine ⟨touch t l.addr sizeofPoolLarge, rfl, rfl,
        .inr ⟨[], l, ls, rfl, hp.symm, by simp, ?_⟩⟩
      simp [pfreeLoop, hp]
    · obtain ⟨t', hl, hf, hcase⟩ := ih (touch t l.addr sizeofPoolLarge)
      refine ⟨t', hl, hf, ?_⟩
      rcases hcase with ⟨hnone, hr⟩ | ⟨l₁, n, l₂, rfl, hn, hfirst, hr⟩
      · exact .inl ⟨List.forall_mem_cons.mpr ⟨Ne.symm hp, hnone⟩, by simp [pfreeLoop, hp, hr]⟩
      · exact .inr ⟨l :: l₁, n, l₂, rfl, hn, List.forall_mem_cons.mpr ⟨Ne.symm hp, hfirst⟩,
          by simp [pfreeLoop, hp, hr]⟩

/-- Freeing takes the address out of those that the nodes hold. -/
lemma heldBy_pfreeLoop {p : ℕ} {ls : List Large} (hnodup : (heldBy ls).Nodup) (t : Trace) :
    heldBy (pfreeLoop p ls t).2.1 = (heldBy ls).filter (· ≠ p) := by
  have hself : ∀ {l : List ℕ}, p ∉ l → l.filter (· ≠ p) = l := by
    intro l hl
    refine List.filter_eq_self.mpr fun q hq => ?_
    have hne : q ≠ p := fun he => hl (he ▸ hq)
    simpa using hne
  obtain ⟨t', -, -, ⟨hnone, hr⟩ | ⟨l₁, n, l₂, rfl, rfl, -, hr⟩⟩ := pfreeLoop_cases p ls t
  · rw [hr, hself]
    intro hp
    obtain ⟨-, l, hl, he⟩ := mem_heldBy.mp hp
    exact hnone l hl he
  · rw [hr]
    dsimp only
    rw [heldBy_append, heldBy_cons_of_empty rfl]
    by_cases h0 : n.alloc = 0
    · rw [hself fun hp => (mem_heldBy.mp hp).1 h0, heldBy_append, heldBy_cons_of_empty h0]
    · rw [heldBy_append, heldBy_cons_of_ne h0] at hnodup ⊢
      obtain ⟨-, hnodup₂, hapart⟩ := List.nodup_append.mp hnodup
      rw [List.filter_append, List.filter_cons_of_neg (by simp),
        hself fun hp => hapart _ hp _ List.mem_cons_self rfl,
        hself (List.nodup_cons.mp hnodup₂).1]

/-- The history holds what the nodes hold. -/
structure Held (S : ℕ) (p : State × List ℕ) : Prop where
  inv : Inv S [] p.1
  perm : p.2.Perm (heldBy p.1.world.pool.large)

lemma Inv.nodup_heldBy (h : Inv S [] s) : (heldBy s.world.pool.large).Nodup := by
  have hnodup : s.world.pool.held.Nodup := h.chain.nodup_owned h.owned
  exact (List.nodup_append.mp hnodup).2.1

lemma Held.apply {held : List ℕ} (h : Held S (s, held)) (op : Op) :
    Held S (s.apply A op, keepLarge A s op held) := by
  refine ⟨h.inv.apply op, ?_⟩
  by_cases hfree : ∃ p, op = .pfree p
  · obtain ⟨p, rfl⟩ := hfree
    have hlarge : (s.apply A (.pfree p)).world.pool.large =
        (pfreeLoop p s.world.pool.large (touch s.world.trace s.world.pool.addr sizeofPool)).2.1 :=
      rfl
    show (held.filter (· ≠ p)).Perm (heldBy (s.apply A (.pfree p)).world.pool.large)
    rw [hlarge, heldBy_pfreeLoop h.inv.nodup_heldBy]
    exact h.perm.filter _
  by_cases hreset : op = .reset
  · subst hreset
    exact .refl _
  · have hfree' : ∀ p, op ≠ .pfree p := fun p he => hfree ⟨p, he⟩
    show (keepLarge A s op held).Perm _
    rw [keepLarge_eq hfree' hreset]
    exact (h.perm.append_left _).trans (remembers_apply hfree' hreset).perm.symm

lemma held_of_reachable {pagesize : ℕ} (hmin : ngxMinPoolSize ≤ S) (hdvd : ngxAlignment ∣ S)
    {held : List ℕ}
    (h : ((system A pagesize S).withHistory [] (keepLarge A)).Reachable (s, held)) :
    Held S (s, held) := by
  refine h.invariant ?_ ?_
  · rintro ⟨s, held⟩ ⟨hs, rfl⟩
    refine ⟨inv_of_reachable hmin hdvd (.init hs), ?_⟩
    obtain ⟨⟨p, t⟩, allocs⟩ := s
    obtain ⟨hp, -, -⟩ := hs
    have hlarge : p.large = [] := by
      obtain ⟨a, -, -, rfl⟩ := ngxCreatePool_some (Prod.ext hp rfl)
      rfl
    show ([] : List ℕ).Perm (heldBy p.large)
    rw [hlarge]
    exact .refl _
  · rintro ⟨s, held⟩ op ⟨s', held'⟩ h - hstep
    cases hstep
    exact h.apply op

/-- The region at `p` is freed, and its node is emptied. -/
structure FreesRegion (w w' : World) (p : ℕ) : Prop where
  freed : frees w'.trace = p :: frees w.trace
  region : ∃ r ∈ live w.trace, r.addr = p
  live : live w'.trace = (live w.trace).filter (·.addr ≠ p)
  node : ∃ l₁ n l₂, w.pool.large = l₁ ++ n :: l₂ ∧ n.alloc = p ∧
    w'.pool = { w.pool with large := l₁ ++ ⟨n.addr, 0⟩ :: l₂ }

structure FreesNothing (w w' : World) : Prop where
  freed : frees w'.trace = frees w.trace
  live : live w'.trace = live w.trace
  pool : w'.pool = w.pool

/-- What `ngx_pfree` is to do with a pointer, given the large allocations that are held. -/
def PfreeRight (w : World) (held : List ℕ) (p : ℕ) : Prop :=
  (p ∈ held → (ngxPfree w p).1 = NGX_OK ∧ FreesRegion w (ngxPfree w p).2 p ∧
    (ngxPfree (ngxPfree w p).2 p).1 = NGX_DECLINED) ∧
  (p ∉ held → (ngxPfree w p).1 = NGX_DECLINED ∧ FreesNothing w (ngxPfree w p).2)

lemma ngxPfree_declined {p : ℕ} (h : ∀ l ∈ w.pool.large, l.alloc ≠ p) :
    (ngxPfree w p).1 = NGX_DECLINED ∧ FreesNothing w (ngxPfree w p).2 := by
  obtain ⟨t, hl, hf, ⟨-, hr⟩ | ⟨l₁, n, l₂, hlarge, hn, -, -⟩⟩ :=
    pfreeLoop_cases p w.pool.large (touch w.trace w.pool.addr sizeofPool)
  · simp only [ngxPfree, hr]
    exact ⟨rfl, hf, hl, rfl⟩
  · exact absurd hn (h n (by rw [hlarge]; simp))

lemma ngxPfree_ok {p : ℕ} (h : ∃ l ∈ w.pool.large, l.alloc = p) :
    ∃ l₁ n l₂ t, w.pool.large = l₁ ++ n :: l₂ ∧ n.alloc = p ∧
      live t = live w.trace ∧ frees t = frees w.trace ∧
      ngxPfree w p = (NGX_OK, ⟨{ w.pool with large := l₁ ++ ⟨n.addr, 0⟩ :: l₂ }, ngxFree t p⟩) := by
  obtain ⟨t, hl, hf, ⟨hnone, -⟩ | ⟨l₁, n, l₂, hlarge, hn, -, hr⟩⟩ :=
    pfreeLoop_cases p w.pool.large (touch w.trace w.pool.addr sizeofPool)
  · obtain ⟨l, hmem, he⟩ := h
    exact absurd he (hnone l hmem)
  · refine ⟨l₁, n, l₂, t, hlarge, hn, hl, hf, ?_⟩
    simp only [ngxPfree, hr]
    rfl

/-- `ngx_pfree` does the right thing with every pointer but the null pointer, and with that
one exactly if the large list has no empty node. -/
theorem pfree_right_iff (A : Malloc) (pagesize S : ℕ) (hmin : ngxMinPoolSize ≤ S)
    (hdvd : ngxAlignment ∣ S) {s : State} {held : List ℕ}
    (h : ((system A pagesize S).withHistory [] (keepLarge A)).Reachable (s, held)) (p : ℕ) :
    PfreeRight s.world held p ↔ p ≠ 0 ∨ ∀ l ∈ s.world.pool.large, l.alloc ≠ 0 := by
  obtain ⟨hinv, hperm⟩ := held_of_reachable hmin hdvd h
  have hmem : ∀ q, q ∈ held ↔ q ≠ 0 ∧ ∃ l ∈ s.world.pool.large, l.alloc = q :=
    fun q => hperm.mem_iff.trans mem_heldBy
  have hnull : 0 ∉ held := fun h0 => ((hmem 0).mp h0).1 rfl
  constructor
  · rintro ⟨-, hdeclined⟩
    by_contra! hcond
    obtain ⟨rfl, l, hl, hempty⟩ := hcond
    obtain ⟨_, _, _, _, -, -, -, -, hr⟩ := ngxPfree_ok ⟨l, hl, hempty⟩
    have hrc := (hdeclined hnull).1
    rw [hr] at hrc
    have hne : NGX_OK ≠ NGX_DECLINED := by decide
    exact hne hrc
  · intro hcond
    refine ⟨fun hp => ?_, fun hp => ngxPfree_declined fun l hl he => ?_⟩
    · obtain ⟨hp0, hnode⟩ := (hmem p).mp hp
      obtain ⟨l₁, n, l₂, t, hlarge, hn, hl, hf, hr⟩ := ngxPfree_ok hnode
      have hregion : p ∈ (live s.world.trace).map Region.addr := by
        refine hinv.owned.mem_iff.mpr ?_
        exact List.mem_append_right _ (List.mem_append_right _ (mem_heldBy.mpr ⟨hp0, hnode⟩))
      obtain ⟨r, hr', he⟩ := List.mem_map.mp hregion
      refine ⟨by rw [hr], ⟨by rw [hr]; exact congrArg (p :: ·) hf, ⟨r, hr', he⟩, ?_,
        l₁, n, l₂, hlarge, hn, by rw [hr]⟩, ?_⟩
      · rw [hr]
        show (live t).filter _ = _
        rw [hl]
      · -- the address is held no more
        refine (ngxPfree_declined fun l hl' he' => ?_).1
        have hgone := heldBy_pfreeLoop (p := p) hinv.nodup_heldBy
          (touch s.world.trace s.world.pool.addr sizeofPool)
        have hheld : p ∈ heldBy (ngxPfree s.world p).2.pool.large :=
          mem_heldBy.mpr ⟨hp0, l, hl', he'⟩
        have hfilter : p ∈ (heldBy s.world.pool.large).filter (· ≠ p) := hgone ▸ hheld
        simp at hfilter
    · rcases hcond with hp0 | hfull
      · exact hp ((hmem p).mpr ⟨hp0, l, hl, he⟩)
      · have hp0 : p ≠ 0 := he ▸ hfull l hl
        exact hp ((hmem p).mpr ⟨hp0, l, hl, he⟩)

/-- A region is freed once, and then no more. -/
theorem pfree_right_iff_once : ∃ s held,
    ((system bump 4096 96).withHistory [] (keepLarge bump)).exec (smallPool, [])
      [.pmemalign 200 64, .palloc 24] = some (s, held) ∧ held = [128] ∧
    PfreeRight s.world held 128 := by
  refine ⟨_, _, rfl, by decide +kernel, ?_⟩
  exact (pfree_right_iff bump 4096 96 (by decide) (by decide)
    (.step (.step (.init ⟨smallPool_init, rfl⟩) trivial rfl) trivial rfl) 128).mpr
    (.inl (by decide))

/-- After one region was freed, `ngx_pfree(pool, NULL)` finds its node. -/
theorem pfree_null_ok : ∃ s held,
    ((system bump 4096 96).withHistory [] (keepLarge bump)).exec (smallPool, [])
      [.pmemalign 200 64, .pfree 128] = some (s, held) ∧
    held = [] ∧ (ngxPfree s.world 0).1 = NGX_OK ∧ frees (ngxPfree s.world 0).2.trace = [0, 128] ∧
    ¬ PfreeRight s.world held 0 := by
  refine ⟨_, _, rfl, by decide +kernel, by decide +kernel, by decide +kernel, ?_⟩
  rintro ⟨-, hdeclined⟩
  have hrc := (hdeclined (by decide +kernel)).1
  exact absurd hrc (by decide +kernel)

end ShareBike.MemoryPool
