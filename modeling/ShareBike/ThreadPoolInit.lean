import ShareBike.ThreadPoolDestroy

/-!
# `thread_pool_init`

The thread that sets up the pool makes one call after the other, and the workers that it has
started run beside it. Which calls fail is given beforehand. A ledger records what was
acquired and not yet released.
-/
namespace ShareBike.ThreadPool
open ShareBike.Lib

/-- The results of the calls that `thread_pool_init` makes: whether `calloc` and `strdup`
got memory, and what the pthread functions return. -/
structure Calls where
  calloc : Bool
  strdup : Bool
  mutexattrInit : Rc
  mutexattrSettype : Rc
  mutexInit : Rc
  mutexattrDestroy : Rc
  condInit : Rc
  attrInit : Rc
  attrSetdetachstate : Rc
  create : ℕ → Rc

/-- What is acquired and not released. -/
structure Held where
  pool : Bool
  name : Bool
  mutexattr : Bool
  mutex : Bool
  cond : Bool
  attr : Bool
  deriving DecidableEq

def Held.nothing : Held := ⟨false, false, false, false, false, false⟩

/-- The next call of `thread_pool_init`. It has returned a pool or `NULL`, or it has written
through the null pointer. -/
inductive InitPlace
  | calloc
  | mutexCreate
  | condCreate
  | attrInit
  | attrSetdetachstate
  | create (n : ℕ)
  | returned (tp : Bool)
  | fault
  deriving DecidableEq

/-- The workers below `started` run in `thread_pool_cycle` on the pool `tp`. -/
structure Init (threads : ℕ) (T : Type) where
  place : InitPlace
  held : Held
  started : ℕ
  tp : State (Fin threads) T

inductive InitAct (threads : ℕ) (T : Type)
  | init
  | worker (a : Act (Fin threads) T)

/-- `thread_pool_init_default`. -/
def threadPoolInitDefault (c : Calls) (tpp : Bool) (held : Held) : Rc × Held :=
  if tpp then (.OK, { held with name := c.strdup }) else (.ERROR, held)

def threadMutexCreate (c : Calls) (held : Held) : Rc × Held :=
  match c.mutexattrInit with
  | .ERROR => (.ERROR, held)
  | .OK =>
    let held := { held with mutexattr := true }
    match c.mutexattrSettype with
    | .ERROR => (.ERROR, held)
    | .OK =>
      match c.mutexInit with
      | .ERROR => (.ERROR, held)
      | .OK =>
        let held := { held with mutex := true }
        match c.mutexattrDestroy with
        | .ERROR => (.OK, held)
        | .OK => (.OK, { held with mutexattr := false })

def threadCondCreate (c : Calls) (held : Held) : Rc × Held :=
  match c.condInit with
  | .ERROR => (.ERROR, held)
  | .OK => (.OK, { held with cond := true })

variable {threads : ℕ} {T : Type}

/-- `free(tp); return NULL`. -/
def Init.fail (s : Init threads T) (held : Held) : Init threads T :=
  { s with place := .returned false, held := { held with pool := false } }

/-- One call of `thread_pool_init`. The result of `calloc` is not checked before
`thread_pool_queue_init` writes to the pool. -/
def threadPoolInit (c : Calls) (s : Init threads T) : Option (Init threads T) :=
  match s.place with
  | .calloc =>
    let held := (threadPoolInitDefault c c.calloc { s.held with pool := c.calloc }).2
    if c.calloc then some { s with place := .mutexCreate, held := held }
    else some { s with place := .fault, held := held }
  | .mutexCreate =>
    match threadMutexCreate c s.held with
    | (.OK, held) => some { s with place := .condCreate, held := held }
    | (.ERROR, held) => some (s.fail held)
  | .condCreate =>
    match threadCondCreate c s.held with
    | (.OK, held) => some { s with place := .attrInit, held := held }
    | (.ERROR, held) => some (s.fail { held with mutex := false })
  | .attrInit =>
    match c.attrInit with
    | .OK => some { s with place := .attrSetdetachstate, held := { s.held with attr := true } }
    | .ERROR => some (s.fail s.held)
  | .attrSetdetachstate =>
    match c.attrSetdetachstate with
    | .OK => some { s with place := .create 0 }
    | .ERROR => some (s.fail s.held)
  | .create n =>
    if n < threads then
      match c.create n with
      | .OK => some { s with place := .create (n + 1), started := n + 1 }
      | .ERROR => some (s.fail s.held)
    else some { s with place := .returned true, held := { s.held with attr := false } }
  | .returned _ => none
  | .fault => none

variable [DecidableEq T]

/-- A worker runs once it was started, also when the pool was freed since. -/
def initStep (c : Calls) (s : Init threads T) : InitAct threads T → Option (Init threads T)
  | .init => threadPoolInit c s
  | .worker a =>
    match a.worker with
    | some w => if w.val < s.started then (step s.tp a).map fun tp => { s with tp := tp } else none
    | none => none

/-- The thread in `thread_pool_init` and the workers, for a configured number of threads. -/
def initSystem (c : Calls) (threads : ℕ) (T : Type) [DecidableEq T] (maxQueue : ℤ) :
    System (Init threads T) (InitAct threads T) where
  init s := s = ⟨.calloc, .nothing, 0, start (Fin threads) T maxQueue⟩
  step := initStep c

namespace Calls

/-- `thread_mutex_create` returns `ERROR`. -/
def MutexFails (c : Calls) : Prop :=
  c.mutexattrInit = .ERROR ∨ c.mutexattrSettype = .ERROR ∨ c.mutexInit = .ERROR

/-- One of the calls that `thread_pool_init` depends on fails. -/
def Fails (c : Calls) (threads : ℕ) : Prop :=
  c.calloc = false ∨ c.MutexFails ∨ c.condInit = .ERROR ∨ c.attrInit = .ERROR ∨
    c.attrSetdetachstate = .ERROR ∨ ∃ k < threads, c.create k = .ERROR

end Calls

/-- `thread_pool_init` has returned, or has crashed. -/
def Init.Over (s : Init threads T) : Prop := s.place = .fault ∨ ∃ tp, s.place = .returned tp

/-- The worker locks the mutex or waits for the condition variable, and may dequeue. -/
def Act.Touches {W : Type} : Act W T → Prop
  | .enter _ _ _ => True
  | .resume _ _ _ => True
  | .wake _ => True
  | _ => False

/-- `thread_pool_init` has returned `NULL` and released what it had acquired, and in no later
interleaving a worker touches the pool. -/
structure CleanedUp (c : Calls) (maxQueue : ℤ) (s : Init threads T) : Prop where
  null : s.place = .returned false
  pool : s.held.pool = false
  name : s.held.name = false
  mutex : s.held.mutex = false
  cond : s.held.cond = false
  quiet : ∀ as s', (initSystem c threads T maxQueue).exec s as = some s' →
    ∀ a, a.Touches → initStep c s' (.worker a) = none

/-- The part of the ledger that `thread_pool_init` has to clean up. -/
structure Held.Are (held : Held) (pool name mutex cond : Bool) : Prop where
  pool : held.pool = pool
  name : held.name = name
  mutex : held.mutex = mutex
  cond : held.cond = cond

/-- What the place in `thread_pool_init` says about the calls made and about the ledger. -/
def Ledger (c : Calls) (s : Init threads T) : Prop :=
  match s.place with
  | .calloc => s.held = .nothing ∧ s.started = 0
  | .mutexCreate => s.held.Are true c.strdup false false ∧ s.started = 0 ∧ c.calloc = true
  | .condCreate => s.held.Are true c.strdup true false ∧ s.started = 0 ∧ c.calloc = true ∧
      ¬ c.MutexFails
  | .attrInit => s.held.Are true c.strdup true true ∧ c.calloc = true ∧ ¬ c.MutexFails ∧
      c.condInit = .OK
  | .attrSetdetachstate => s.held.Are true c.strdup true true ∧ c.calloc = true ∧
      ¬ c.MutexFails ∧ c.condInit = .OK ∧ c.attrInit = .OK
  | .create n => s.held.Are true c.strdup true true ∧ c.calloc = true ∧ ¬ c.MutexFails ∧
      c.condInit = .OK ∧ c.attrInit = .OK ∧ c.attrSetdetachstate = .OK ∧
      ∀ k < n, c.create k = .OK
  | .returned true => ¬ c.Fails threads
  | .returned false => c.calloc = true ∧
      (s.held.Are false c.strdup false false ∧ s.started = 0 ∧
          (c.MutexFails ∨ c.condInit = .ERROR) ∨
        s.held.Are false c.strdup true true ∧ ¬ c.MutexFails ∧ c.condInit = .OK)
  | .fault => c.calloc = false

/-- The paths through `thread_mutex_create`. -/
lemma threadMutexCreate_cases (c : Calls) {held : Held} {pool name cond : Bool}
    (hare : held.Are pool name false cond) :
    (∃ held', threadMutexCreate c held = (.OK, held') ∧ held'.Are pool name true cond ∧
      ¬ c.MutexFails) ∨
    (∃ held', threadMutexCreate c held = (.ERROR, held') ∧ held'.Are pool name false cond ∧
      c.MutexFails) := by
  obtain ⟨hpool, hname, hmutex, hcond⟩ := hare
  simp only [threadMutexCreate, Calls.MutexFails]
  cases c.mutexattrInit with
  | ERROR => exact .inr ⟨_, rfl, ⟨hpool, hname, hmutex, hcond⟩, .inl rfl⟩
  | OK =>
    cases c.mutexattrSettype with
    | ERROR => exact .inr ⟨_, rfl, ⟨hpool, hname, hmutex, hcond⟩, .inr (.inl rfl)⟩
    | OK =>
      cases c.mutexInit with
      | ERROR => exact .inr ⟨_, rfl, ⟨hpool, hname, hmutex, hcond⟩, .inr (.inr rfl)⟩
      | OK => cases c.mutexattrDestroy <;>
        exact .inl ⟨_, rfl, ⟨hpool, hname, rfl, hcond⟩, by simp⟩

variable {c : Calls} {s s' : Init threads T} {maxQueue : ℤ}

omit [DecidableEq T] in
/-- One call of `thread_pool_init`, by the place before it. -/
lemma Ledger.init (h : Ledger c s) (hs : threadPoolInit c s = some s') : Ledger c s' := by
  unfold Ledger at h
  unfold threadPoolInit at hs
  cases hp : s.place with
  | calloc =>
    rw [hp] at h hs
    dsimp only at h hs
    obtain ⟨hheld, hstarted⟩ := h
    cases hc : c.calloc with
    | false =>
      simp only [hc, Bool.false_eq_true, if_false, Option.some.injEq] at hs
      subst hs
      exact hc
    | true =>
      simp only [hc, if_true, Option.some.injEq] at hs
      subst hs
      rw [hheld]
      exact ⟨⟨rfl, rfl, rfl, rfl⟩, hstarted, hc⟩
  | mutexCreate =>
    rw [hp] at h hs
    dsimp only at h hs
    obtain ⟨hare, hstarted, hcalloc⟩ := h
    obtain ⟨held, hr, hare', hok⟩ | ⟨held, hr, hare', hfail⟩ := threadMutexCreate_cases c hare
    · rw [hr] at hs
      cases hs
      exact ⟨hare', hstarted, hcalloc, hok⟩
    · rw [hr] at hs
      cases hs
      exact ⟨hcalloc, .inl ⟨⟨rfl, hare'.name, hare'.mutex, hare'.cond⟩, hstarted, .inl hfail⟩⟩
  | condCreate =>
    rw [hp] at h hs
    dsimp only at h hs
    obtain ⟨hare, hstarted, hcalloc, hmutex⟩ := h
    cases hc : c.condInit with
    | OK =>
      simp only [threadCondCreate, hc, Option.some.injEq] at hs
      subst hs
      exact ⟨⟨hare.pool, hare.name, hare.mutex, rfl⟩, hcalloc, hmutex, hc⟩
    | ERROR =>
      simp only [threadCondCreate, hc, Option.some.injEq] at hs
      subst hs
      exact ⟨hcalloc, .inl ⟨⟨rfl, hare.name, rfl, hare.cond⟩, hstarted, .inr hc⟩⟩
  | attrInit =>
    rw [hp] at h hs
    dsimp only at h hs
    obtain ⟨hare, hcalloc, hmutex, hcond⟩ := h
    cases hc : c.attrInit with
    | OK =>
      simp only [hc, Option.some.injEq] at hs
      subst hs
      exact ⟨⟨hare.pool, hare.name, hare.mutex, hare.cond⟩, hcalloc, hmutex, hcond, hc⟩
    | ERROR =>
      simp only [hc, Option.some.injEq] at hs
      subst hs
      exact ⟨hcalloc, .inr ⟨⟨rfl, hare.name, hare.mutex, hare.cond⟩, hmutex, hcond⟩⟩
  | attrSetdetachstate =>
    rw [hp] at h hs
    dsimp only at h hs
    obtain ⟨hare, hcalloc, hmutex, hcond, hattr⟩ := h
    cases hc : c.attrSetdetachstate with
    | OK =>
      simp only [hc, Option.some.injEq] at hs
      subst hs
      exact ⟨hare, hcalloc, hmutex, hcond, hattr, hc, fun k hk => absurd hk (Nat.not_lt_zero k)⟩
    | ERROR =>
      simp only [hc, Option.some.injEq] at hs
      subst hs
      exact ⟨hcalloc, .inr ⟨⟨rfl, hare.name, hare.mutex, hare.cond⟩, hmutex, hcond⟩⟩
  | create n =>
    rw [hp] at h hs
    dsimp only at h hs
    obtain ⟨hare, hcalloc, hmutex, hcond, hattr, hset, hcreate⟩ := h
    split_ifs at hs with hn
    · cases hc : c.create n with
      | OK =>
        simp only [hc, Option.some.injEq] at hs
        subst hs
        refine ⟨hare, hcalloc, hmutex, hcond, hattr, hset, fun k hk => ?_⟩
        rcases Nat.lt_succ_iff_lt_or_eq.mp hk with hk | rfl
        · exact hcreate k hk
        · exact hc
      | ERROR =>
        simp only [hc, Option.some.injEq] at hs
        subst hs
        exact ⟨hcalloc, .inr ⟨⟨rfl, hare.name, hare.mutex, hare.cond⟩, hmutex, hcond⟩⟩
    · cases hs
      -- every call has succeeded
      show ¬ c.Fails threads
      simp only [Calls.Fails, hcalloc, hcond, hattr, hset, hmutex, not_or, not_exists]
      refine ⟨by simp, id, by simp, by simp, by simp, ?_⟩
      rintro k ⟨hk, hfail⟩
      rw [hcreate k (by omega)] at hfail
      cases hfail
  | returned tp | fault =>
    rw [hp] at hs
    cases hs

lemma Ledger.step (h : Ledger c s) {a : InitAct threads T} (hs : initStep c s a = some s') :
    Ledger c s' := by
  cases a with
  | init => exact h.init hs
  | worker a =>
    simp only [initStep] at hs
    split at hs
    · split_ifs at hs
      obtain ⟨tp, -, rfl⟩ := Option.map_eq_some_iff.mp hs
      exact h
    · cases hs

lemma ledger_of_reach (h : (initSystem c threads T maxQueue).Reachable s) : Ledger c s := by
  refine h.invariant ?_ fun _ _ _ hl _ hs => hl.step hs
  rintro s rfl
  exact ⟨rfl, rfl⟩

/-- What the workers do meanwhile is a run of the pool. -/
theorem init_pool_reachable (h : (initSystem c threads T maxQueue).Reachable s) :
    (system (Fin threads) T maxQueue).Reachable s.tp := by
  induction h with
  | init hs =>
    obtain rfl := hs
    exact .init rfl
  | @step s s' a _ _ hs ih =>
    cases a with
    | init =>
      have htp : s'.tp = s.tp := by
        change threadPoolInit c s = some s' at hs
        unfold threadPoolInit at hs
        repeat' split at hs
        all_goals cases hs
        all_goals rfl
      rw [htp]
      exact ih
    | worker a =>
      change initStep c s (.worker a) = some s' at hs
      simp only [initStep] at hs
      split at hs
      · split_ifs at hs
        obtain ⟨tp, htp, rfl⟩ := Option.map_eq_some_iff.mp hs
        exact .step ih trivial htp
      · cases hs

/-- How many calls `thread_pool_init` can still make. -/
def InitPlace.rank (threads : ℕ) : InitPlace → ℕ
  | calloc => threads + 6
  | mutexCreate => threads + 5
  | condCreate => threads + 4
  | attrInit => threads + 3
  | attrSetdetachstate => threads + 2
  | create n => threads - n + 1
  | returned _ => 0
  | fault => 0

omit [DecidableEq T] in
/-- As long as it is not over, `thread_pool_init` goes on. -/
lemma init_progress (c : Calls) (h : ¬ s.Over) :
    ∃ s', threadPoolInit c s = some s' ∧ s'.place.rank threads < s.place.rank threads := by
  unfold threadPoolInit
  cases hp : s.place with
  | calloc => cases c.calloc <;> simp [InitPlace.rank]
  | mutexCreate =>
    rcases threadMutexCreate c s.held with ⟨_ | _, held⟩ <;> simp [Init.fail, InitPlace.rank]
  | condCreate =>
    rcases threadCondCreate c s.held with ⟨_ | _, held⟩ <;> simp [Init.fail, InitPlace.rank]
  | attrInit => cases c.attrInit <;> simp [Init.fail, InitPlace.rank]
  | attrSetdetachstate => cases c.attrSetdetachstate <;> simp [Init.fail, InitPlace.rank]
  | create n =>
    by_cases hn : n < threads
    · cases hc : c.create n with
      | OK =>
        refine ⟨{ s with place := .create (n + 1), started := n + 1 }, by simp [hn, hc], ?_⟩
        show threads - (n + 1) + 1 < threads - n + 1
        omega
      | ERROR => exact ⟨s.fail s.held, by simp [hn, hc], Nat.succ_pos _⟩
    · simp [hn, InitPlace.rank]
  | returned tp => exact absurd (.inr ⟨tp, hp⟩) h
  | fault => exact absurd (.inl hp) h

/-- `thread_pool_init` comes to an end, whatever the workers have done. -/
theorem init_ends (c : Calls) (maxQueue : ℤ) (s : Init threads T) : ∃ n s',
    (initSystem c threads T maxQueue).exec s (List.replicate n .init) = some s' ∧ s'.Over := by
  induction hk : s.place.rank threads using Nat.strong_induction_on generalizing s with
  | h k ih =>
    by_cases hover : s.Over
    · exact ⟨0, s, rfl, hover⟩
    · obtain ⟨s₁, hs, hlt⟩ := init_progress c hover
      obtain ⟨n, s', hrest, hover'⟩ := ih _ (hk ▸ hlt) s₁ rfl
      exact ⟨n + 1, s', System.exec_cons.mpr ⟨s₁, hs, hrest⟩, hover'⟩

/-- Where no worker was started, none will touch the pool. -/
lemma quiet_of_not_started (hnull : s.place = .returned false) (hstarted : s.started = 0)
    {as : List (InitAct threads T)}
    (he : (initSystem c threads T maxQueue).exec s as = some s') (a : Act (Fin threads) T) :
    initStep c s' (.worker a) = none := by
  have hnone : ∀ (u : Init threads T), u.place = .returned false ∧ u.started = 0 →
      ∀ b, initStep c u b = none := by
    rintro u ⟨hp, hn⟩ b
    cases b with
    | init =>
      change threadPoolInit c u = none
      unfold threadPoolInit
      rw [hp]
    | worker b =>
      simp only [initStep, hn]
      split
      · exact if_neg (Nat.not_lt_zero _)
      · rfl
  have hkeep : s'.place = .returned false ∧ s'.started = 0 := by
    refine System.exec_invariant (S := initSystem c threads T maxQueue)
      (I := fun u => u.place = .returned false ∧ u.started = 0) ?_ ⟨hnull, hstarted⟩ he
    intro u b u' hu hstep
    have hstuck : initStep c u b = some u' := hstep
    rw [hnone u hu b] at hstuck
    cases hstuck
  exact hnone s' hkeep _

/-- If one of its calls fails, `thread_pool_init` comes to an end, but it cleans up only if
the call that failed belongs to the creation of the mutex or the condition variable and
`strdup` got no memory for the name. -/
theorem init_cleans_up_iff (hfail : c.Fails threads)
    (h : (initSystem c threads T maxQueue).Reachable s) :
    (∃ n s', (initSystem c threads T maxQueue).exec s (List.replicate n .init) = some s' ∧
      s'.Over) ∧
    (s.Over → (CleanedUp c maxQueue s ↔
      c.calloc = true ∧ c.strdup = false ∧ (c.MutexFails ∨ c.condInit = .ERROR))) := by
  refine ⟨init_ends c maxQueue s, fun hover => ?_⟩
  have hledger := ledger_of_reach h
  unfold Ledger at hledger
  rcases hover with hp | ⟨_ | _, hp⟩
  · rw [hp] at hledger
    refine iff_of_false (fun hc => ?_) (fun hc => ?_)
    · rw [hc.null] at hp
      cases hp
    · have hcalloc : c.calloc = false := hledger
      rw [hc.1] at hcalloc
      cases hcalloc
  · rw [hp] at hledger
    obtain ⟨hcalloc, ⟨hare, hstarted, hwhich⟩ | ⟨hare, hmutex, hcond⟩⟩ := hledger
    · constructor
      · exact fun hc => ⟨hcalloc, hare.name.symm.trans hc.name, hwhich⟩
      · rintro ⟨-, hname, -⟩
        exact ⟨hp, hare.pool, hare.name.trans hname, hare.mutex, hare.cond,
          fun as s' he a _ => quiet_of_not_started hp hstarted he a⟩
    · refine iff_of_false (fun hc => ?_) ?_
      · have hheld := hare.mutex.symm.trans hc.mutex
        cases hheld
      · rintro ⟨-, -, hm | hm⟩
        · exact hmutex hm
        · rw [hcond] at hm
          cases hm
  · rw [hp] at hledger
    exact absurd hfail hledger

/-- Every call succeeds but the `k`-th `pthread_create`. -/
def Calls.createFails (k : ℕ) : Calls where
  calloc := true
  strdup := true
  mutexattrInit := .OK
  mutexattrSettype := .OK
  mutexInit := .OK
  mutexattrDestroy := .OK
  condInit := .OK
  attrInit := .OK
  attrSetdetachstate := .OK
  create n := if n = k then .ERROR else .OK

/-- There is no memory for the name, and the condition variable is not created. -/
theorem init_cleans_up_iff_cond :
    ∃ s, (initSystem { Calls.createFails 0 with strdup := false, condInit := .ERROR } 4 (Fin 1)
        65535).exec ⟨.calloc, .nothing, 0, start (Fin 4) (Fin 1) 65535⟩
        (List.replicate 3 .init) = some s ∧
      CleanedUp { Calls.createFails 0 with strdup := false, condInit := .ERROR } 65535 s := by
  have hrun : ((initSystem { Calls.createFails 0 with strdup := false, condInit := .ERROR } 4
      (Fin 1) 65535).exec ⟨.calloc, .nothing, 0, start (Fin 4) (Fin 1) 65535⟩
      (List.replicate 3 .init)).map (·.place) = some (.returned false) := by
    decide +kernel
  obtain ⟨s, hs, hplace⟩ := Option.map_eq_some_iff.mp hrun
  have hreach := System.Reach.exec (.init rfl) (fun _ _ _ => trivial) hs
  refine ⟨s, hs, ((init_cleans_up_iff (.inr (.inr (.inl rfl))) hreach).2 ?_).mpr ?_⟩
  · exact .inr ⟨false, hplace⟩
  · exact ⟨rfl, rfl, .inr rfl⟩

/-- The second of two threads cannot be created: `NULL` is returned and the pool is freed, the
name, the mutex and the condition variable are not released, and the first worker goes on to
lock the mutex and to write `waiting` of the freed pool. If there is no memory for the pool,
`NULL` is not even returned. -/
theorem init_leaves_worker :
    (∃ s s', (initSystem (.createFails 1) 2 (Fin 1) 8).exec
        ⟨.calloc, .nothing, 0, start (Fin 2) (Fin 1) 8⟩ (List.replicate 7 .init) = some s ∧
      s.place = .returned false ∧
      (s.held.pool = false ∧ s.held.name = true ∧ s.held.mutex = true ∧ s.held.cond = true) ∧
      initStep (.createFails 1) s (.worker (.enter 0 .OK .OK)) = some s' ∧ s'.tp.tp.waiting = -1 ∧
      ¬ CleanedUp (.createFails 1) 8 s) ∧
    ∃ s, (initSystem { Calls.createFails 1 with calloc := false } 2 (Fin 1) 8).exec
        ⟨.calloc, .nothing, 0, start (Fin 2) (Fin 1) 8⟩ [.init] = some s ∧ s.place = .fault := by
  constructor
  · have hrun : ((initSystem (.createFails 1) 2 (Fin 1) 8).exec
        ⟨.calloc, .nothing, 0, start (Fin 2) (Fin 1) 8⟩ (List.replicate 7 .init)).map
        (fun s => (s.place, s.held, (initStep (.createFails 1) s
          (.worker (.enter 0 .OK .OK))).map (·.tp.tp.waiting))) =
        some (.returned false, ⟨false, true, false, true, true, true⟩, some (-1)) := by
      decide +kernel
    obtain ⟨s, hs, he⟩ := Option.map_eq_some_iff.mp hrun
    simp only [Prod.mk.injEq] at he
    obtain ⟨hplace, hheld, hworker⟩ := he
    obtain ⟨s', hs', hwaiting⟩ := Option.map_eq_some_iff.mp hworker
    refine ⟨s, s', hs, hplace, by simp [hheld], hs', hwaiting, fun hc => ?_⟩
    have hmutex := hc.mutex
    rw [hheld] at hmutex
    cases hmutex
  · have hrun : ((initSystem { Calls.createFails 1 with calloc := false } 2 (Fin 1) 8).exec
        ⟨.calloc, .nothing, 0, start (Fin 2) (Fin 1) 8⟩ [.init]).map (·.place) = some .fault := by
      decide +kernel
    obtain ⟨s, hs, hplace⟩ := Option.map_eq_some_iff.mp hrun
    exact ⟨s, hs, hplace⟩

end ShareBike.ThreadPool
