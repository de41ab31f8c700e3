import ShareBike.ThreadPoolDestroy

/-!
# When `thread_pool_destroy` returns

The exit tasks go through the bounded queue, and the producers may go on posting. A
post that is refused ends `thread_pool_destroy` at once: the workers that have not
stopped run on, and nothing is released. If no post is refused, the count of the
workers that have stopped is the loop variable, whatever the workers' own calls return.
-/
namespace ShareBike.ThreadPool
open ShareBike.Lib

variable {W T : Type} {s s' : State W T}

/-- What `thread_pool_destroy` releases. -/
inductive Released
  | cond
  | mutex
  | pool
  deriving DecidableEq, Repr

/-- `thread_cond_destroy`, `thread_mutex_destroy` and `free`, in the order of the calls. -/
def release (s : State W T) : Act W T → List Released → List Released
  | .destroy _ _ _, l =>
    match s.destroyer with
    | .condDestroy => l ++ [.cond]
    | .mutexDestroy => l ++ [.mutex]
    | .free => l ++ [.pool]
    | _ => l
  | _, l => l

/-- The pool together with what was released of it. -/
def shutdown (W T : Type) [DecidableEq W] [DecidableEq T] [Fintype W] (maxQueue : ℤ) :
    System (State W T × List Released) (Act W T) :=
  (system W T maxQueue).withHistory [] release

/-- `thread_pool_destroy` has not returned, or each worker is at a place in `gone` and the
condition variable, the mutex and the pool were released. -/
def Clean (gone : Pc T → Prop) (p : State W T × List Released) : Prop :=
  p.1.destroyer ≠ .refused ∧
    (p.1.destroyer = .returned →
      (∀ w, gone (p.1.worker w)) ∧ p.2 = [.cond, .mutex, .pool])

/-- If `thread_pool_destroy` posts its task in this step, the task is accepted. -/
def Accepted (p : State W T × List Released) : Act W T → Prop
  | .destroy lockRc signalRc _ => (∃ n, p.1.destroyer = .post n) →
    lockRc = .OK ∧ signalRc = .OK ∧ p.1.tp.waiting < p.1.tp.maxQueue
  | _ => True

/-- If `thread_pool_destroy` frees the pool and returns in this step, no worker is still
between `*lock = 0` and the end of `pthread_exit`. -/
def Joined (p : State W T × List Released) : Act W T → Prop
  | .destroy _ _ _ => p.1.destroyer = .free → ∀ w, p.1.worker w ≠ .exiting
  | _ => True

/-- How far the destroyer has come says what it has released. -/
def Destroyer.released : Destroyer → List Released
  | mutexDestroy => [.cond]
  | free => [.cond, .mutex]
  | returned => [.cond, .mutex, .pool]
  | _ => []

variable [Fintype W] [DecidableEq W] [DecidableEq T]

section Destroyer

omit [Fintype W]

lemma threadTaskPost_ok_iff (s : State W T) (task : Task T) (lockRc signalRc : Rc)
    (wakes : Finset W) : (s.threadTaskPost task lockRc signalRc wakes).1 = .OK ↔
      lockRc = .OK ∧ signalRc = .OK ∧ s.tp.waiting < s.tp.maxQueue := by
  cases lockRc with
  | ERROR => simp [State.threadTaskPost]
  | OK =>
    simp only [State.threadTaskPost]
    split_ifs with hfull
    · refine iff_of_false (by simp) ?_
      rintro ⟨-, -, hlt⟩
      omega
    · cases signalRc with
      | ERROR => simp
      | OK => simp [not_le.mp hfull]

/-- Where a step of `thread_pool_destroy` leads. -/
lemma destroy_places {lockRc signalRc : Rc} {wakes : Finset W}
    (hs : s.threadPoolDestroy lockRc signalRc wakes = some s') :
    (s.destroyer = .idle ∧ s'.destroyer = .loop 0) ∨
    (∃ n, s.destroyer = .loop n ∧ (s'.destroyer = .post n ∨ s'.destroyer = .condDestroy)) ∨
    (∃ n, s.destroyer = .post n ∧
      ((s.threadTaskPost .exit lockRc signalRc wakes).1 = .OK ∧ s'.destroyer = .spin n ∨
        (s.threadTaskPost .exit lockRc signalRc wakes).1 ≠ .OK ∧ s'.destroyer = .refused)) ∨
    (∃ n, s.destroyer = .spin n ∧ (s'.destroyer = .spin n ∨ s'.destroyer = .loop (n + 1))) ∨
    (s.destroyer = .condDestroy ∧ s'.destroyer = .mutexDestroy) ∨
    (s.destroyer = .mutexDestroy ∧ s'.destroyer = .free) ∨
    (s.destroyer = .free ∧ s'.destroyer = .returned ∧ s'.worker = s.worker) := by
  unfold State.threadPoolDestroy at hs
  cases hd : s.destroyer with
  | idle | condDestroy | mutexDestroy | free =>
    rw [hd] at hs
    cases hs
    simp
  | loop n | spin n =>
    rw [hd] at hs
    dsimp only at hs
    split_ifs at hs <;> cases hs <;> simp [hd]
  | post n =>
    rw [hd] at hs
    dsimp only at hs
    rcases hr : s.threadTaskPost .exit lockRc signalRc wakes with ⟨_ | _, r⟩ <;>
      simp only [State.post, hr] at hs <;> cases hs <;> simp
  | returned | refused =>
    rw [hd] at hs
    cases hs

/-- What a step of `thread_pool_destroy` releases belongs to its new place. -/
lemma release_destroy {lockRc signalRc : Rc} {wakes : Finset W}
    (hs : s.threadPoolDestroy lockRc signalRc wakes = some s') :
    release s (.destroy lockRc signalRc wakes) s.destroyer.released = s'.destroyer.released := by
  obtain ⟨hd, hd'⟩ | ⟨n, hd, hd' | hd'⟩ | ⟨n, hd, ⟨-, hd'⟩ | ⟨-, hd'⟩⟩ | ⟨n, hd, hd' | hd'⟩ |
    ⟨hd, hd'⟩ | ⟨hd, hd'⟩ | ⟨hd, hd', -⟩ := destroy_places hs <;>
    rw [hd'] <;> simp [release, hd, Destroyer.released]

/-- `thread_pool_destroy` gives up exactly if its post is not accepted. -/
lemma refused_iff {lockRc signalRc : Rc} {wakes : Finset W} {l : List Released}
    (hs : s.threadPoolDestroy lockRc signalRc wakes = some s') :
    s'.destroyer = .refused ↔ ¬ Accepted (s, l) (.destroy lockRc signalRc wakes) := by
  have hok := threadTaskPost_ok_iff s .exit lockRc signalRc wakes
  obtain ⟨hd, hd'⟩ | ⟨n, hd, hd' | hd'⟩ | ⟨n, hd, ⟨hr, hd'⟩ | ⟨hr, hd'⟩⟩ | ⟨n, hd, hd' | hd'⟩ |
    ⟨hd, hd'⟩ | ⟨hd, hd'⟩ | ⟨hd, hd', -⟩ := destroy_places hs <;>
    rw [hd'] <;> simp [Accepted, hd, ← hok]
  · exact hr
  · exact hr

/-- `thread_pool_destroy` returns right after it has freed the pool. -/
lemma returned_destroy {lockRc signalRc : Rc} {wakes : Finset W}
    (hs : s.threadPoolDestroy lockRc signalRc wakes = some s')
    (hret : s'.destroyer = .returned) : s.destroyer = .free ∧ s'.worker = s.worker := by
  obtain ⟨-, hd'⟩ | ⟨n, -, hd' | hd'⟩ | ⟨n, -, ⟨-, hd'⟩ | ⟨-, hd'⟩⟩ | ⟨n, -, hd' | hd'⟩ |
    ⟨-, hd'⟩ | ⟨-, hd'⟩ | ⟨hd, -, hw⟩ := destroy_places hs
  all_goals first | exact ⟨hd, hw⟩ | rw [hd'] at hret; cases hret

end Destroyer

/-- Only the steps of `thread_pool_destroy` release something and can be refused. -/
lemma step_destroyer {a : Act W T} (hs : step s a = some s') :
    (∃ lockRc signalRc wakes, a = .destroy lockRc signalRc wakes ∧
      s.threadPoolDestroy lockRc signalRc wakes = some s') ∨
    (s'.destroyer = s.destroyer ∧ (∀ l, release s a l = l) ∧ ∀ p, Accepted p a ∧ Joined p a) := by
  obtain ⟨-, hdestroy | ⟨hne, hd, -⟩⟩ := step_frame hs
  · exact .inl hdestroy
  · cases a with
    | destroy lockRc signalRc wakes => exact absurd rfl (hne lockRc signalRc wakes)
    | _ => exact .inr ⟨hd, fun _ => rfl, fun _ => ⟨trivial, trivial⟩⟩

/-- What is known while no post of the destroyer was refused. -/
structure Going (p : State W T × List Released) : Prop where
  owns : Owns p.1
  halts : Halts p.1
  released : p.2 = p.1.destroyer.released
  going : p.1.destroyer ≠ .refused

variable {p q : State W T × List Released}

omit [DecidableEq W] [DecidableEq T] in
lemma Going.all_gone (h : Going p) (hd : p.1.destroyer = .free ∨ p.1.destroyer = .returned)
    (w : W) : (p.1.worker w).Gone := by
  refine (h.halts.exits_iff w).mp (all_stopped h.halts.nodup ?_ w)
  have hk := h.halts.stopped
  rcases hd with hd | hd <;> rw [hd] at hk <;> exact hk

omit [DecidableEq W] [DecidableEq T] in
lemma Going.clean (h : Going p) : Clean Pc.Gone p := by
  refine ⟨h.going, fun hd => ⟨h.all_gone (.inr hd), ?_⟩⟩
  rw [h.released, hd]
  rfl

variable {maxQueue : ℤ} {a : Act W T}

lemma Going.step (h : Going p) (hok : Accepted p a)
    (hs : (shutdown W T maxQueue).step p a = some q) : Going q := by
  obtain ⟨hs, hrel⟩ := System.withHistory_step.mp hs
  rw [h.released] at hrel
  refine ⟨h.owns.step hs, h.halts.step h.owns hs, ?_, ?_⟩
  · obtain ⟨lockRc, signalRc, wakes, rfl, hd⟩ | ⟨hd, hl, -⟩ := step_destroyer hs
    · rw [hrel]
      exact release_destroy hd
    · rw [hrel, hl, hd]
  · obtain ⟨lockRc, signalRc, wakes, rfl, hd⟩ | ⟨hd, -⟩ := step_destroyer hs
    · exact fun hr => (refused_iff hd).mp hr hok
    · rw [hd]
      exact h.going

/-- A post that is not accepted ends `thread_pool_destroy` at once. -/
lemma not_clean_of_refused (gone : Pc T → Prop) (hno : ¬ Accepted p a)
    (hs : (shutdown W T maxQueue).step p a = some q) : ¬ Clean gone q := by
  obtain ⟨hs, -⟩ := System.withHistory_step.mp hs
  obtain ⟨lockRc, signalRc, wakes, rfl, hd⟩ | ⟨-, -, hacc⟩ := step_destroyer hs
  · exact fun hc => hc.1 ((refused_iff hd).mpr hno)
  · exact absurd (hacc p).1 hno

/-- Besides, the threads of all workers have ended before `thread_pool_destroy` returns. -/
def Ended (p : State W T × List Released) : Prop :=
  Going p ∧ (p.1.destroyer = .returned → ∀ w, p.1.worker w = .exited)

lemma Ended.step (h : Ended p) (hacc : Accepted p a) (hjoin : Joined p a)
    (hs : (shutdown W T maxQueue).step p a = some q) : Ended q := by
  refine ⟨h.1.step hacc hs, fun hret w => ?_⟩
  obtain ⟨hs, -⟩ := System.withHistory_step.mp hs
  have hold : p.1.destroyer = .returned → q.1.worker w = .exited := by
    intro hd
    rcases gone_step_cases (fun v => .inr (h.2 hd v)) hs w with he | he
    · exact he.trans (h.2 hd w)
    · exact he
  obtain ⟨lockRc, signalRc, wakes, rfl, hd⟩ | ⟨hd, -⟩ := step_destroyer hs
  · obtain ⟨hfree, hw⟩ := returned_destroy hd hret
    rw [hw]
    exact (h.1.all_gone (.inl hfree) w).resolve_left (hjoin hfree w)
  · exact hold (hd.symm.trans hret)

lemma not_clean_of_exiting (hno : ¬ Joined p a)
    (hs : (shutdown W T maxQueue).step p a = some q) : ¬ Clean (· = .exited) q := by
  obtain ⟨hs, -⟩ := System.withHistory_step.mp hs
  obtain ⟨lockRc, signalRc, wakes, rfl, hd⟩ | ⟨-, -, hacc⟩ := step_destroyer hs
  · simp only [Joined, Classical.not_imp, not_forall, not_not] at hno
    obtain ⟨hfree, w, hw⟩ := hno
    have hret : q.1.destroyer = .returned ∧ q.1.worker = p.1.worker := by
      have hplaces := destroy_places hd
      simpa [hfree] using hplaces
    intro hc
    have hended := (hc.2 hret.1).1 w
    rw [hret.2, hw] at hended
    cases hended
  · exact absurd (hacc p).2 hno

/-- In a run of the pool, whoever posts and whatever the workers' own calls return,
`thread_pool_destroy` leaves no worker running and nothing unreleased, exactly if each post
that it makes is accepted. The workers' threads have then ended before it returns exactly if,
besides, no worker is still in `pthread_exit` when the pool is freed. -/
theorem destroy_clean_iff (W T : Type) [DecidableEq W] [DecidableEq T] [Fintype W]
    (maxQueue : ℤ) (acts : List (Act W T)) :
    ((shutdown W T maxQueue).Throughout (Clean Pc.Gone) (start W T maxQueue, []) acts ↔
      (shutdown W T maxQueue).Along Accepted (start W T maxQueue, []) acts) ∧
    ((shutdown W T maxQueue).Throughout (Clean (· = .exited)) (start W T maxQueue, []) acts ↔
      (shutdown W T maxQueue).Along (fun p a => Accepted p a ∧ Joined p a)
        (start W T maxQueue, []) acts) := by
  have hstart : Going (start W T maxQueue, []) :=
    ⟨owns_start, halts_start, rfl, by simp [start]⟩
  constructor
  · exact System.throughout_iff_along (I := Going) (fun _ h => h.clean)
      (fun _ _ _ h hok hs => h.step hok hs) (fun _ _ _ _ hno hs => not_clean_of_refused _ hno hs)
      hstart acts
  · refine System.throughout_iff_along (I := Ended) ?_
      (fun _ _ _ h hok hs => h.step hok.1 hok.2 hs) ?_ ⟨hstart, by simp [start]⟩ acts
    · exact fun p h => ⟨h.1.going, fun hd => ⟨h.2 hd, (h.1.clean.2 hd).2⟩⟩
    · intro p a q _ hno hs
      by_cases hacc : Accepted p a
      · exact not_clean_of_exiting (fun hj => hno ⟨hacc, hj⟩) hs
      · exact not_clean_of_refused _ hacc hs

/-- A run in which the posts are accepted. -/
example : ((shutdown (Fin 1) (Fin 1) 1).exec (start (Fin 1) (Fin 1) 1, [])
    [.destroy .OK .OK ∅, .destroy .OK .OK ∅, .destroy .OK .OK ∅, .enter 0 .OK .OK, .call 0,
      .exit 0, .destroy .OK .OK ∅, .destroy .OK .OK ∅, .destroy .OK .OK ∅, .exit 0,
      .destroy .OK .OK ∅, .destroy .OK .OK ∅]).map (fun p => (p.1.destroyer, p.2)) =
    some (.returned, [.cond, .mutex, .pool]) := by
  decide +kernel

/-- The worker `w` is stopped, then a producer fills the queue with the task `t`. -/
def partialRun (w : W) (t : T) : List (Act W T) :=
  [.alloc t, .destroy .OK .OK ∅, .destroy .OK .OK ∅, .destroy .OK .OK ∅, .enter w .OK .OK,
    .call w, .exit w, .exit w, .destroy .OK .OK ∅, .destroy .OK .OK ∅, .post t .OK .OK ∅,
    .destroy .OK .OK ∅]

/-- `thread_pool_destroy` has returned with one worker stopped, the other one in its loop,
and nothing released. -/
theorem destroy_partial :
    ∃ p, (shutdown (Fin 2) (Fin 1) 1).exec (start (Fin 2) (Fin 1) 1, []) (partialRun 0 0) =
        some p ∧
      (p.1.destroyer = .refused ∧ p.1.worker 0 = .exited ∧ p.1.worker 1 = .top ∧ p.2 = []) ∧
      ¬ Clean Pc.Gone p := by
  have hrun : ((shutdown (Fin 2) (Fin 1) 1).exec (start (Fin 2) (Fin 1) 1, [])
      (partialRun 0 0)).map (fun p => (p.1.destroyer, p.1.worker 0, p.1.worker 1, p.2)) =
      some (.refused, .exited, .top, []) := by
    decide +kernel
  obtain ⟨p, hp, he⟩ := Option.map_eq_some_iff.mp hrun
  simp only [Prod.mk.injEq] at he
  exact ⟨p, hp, he, fun hc => hc.1 he.1⟩

end ShareBike.ThreadPool
