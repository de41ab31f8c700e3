import ShareBike.ThreadPoolWaiting

/-!
# Workers that leave `thread_pool_cycle`

A worker returns from `thread_pool_cycle` when one of its calls reports an error. The lock
at the top fails before the worker has done anything. `thread_cond_wait` fails after
`tp->waiting--`, and the unlock fails after the dequeue; neither is undone.
-/
namespace ShareBike.ThreadPool
open ShareBike.Lib

variable {W T : Type} {s s' : State W T} {i : ℕ}

/-- The task of the `i`-th acceptance is still queued, or a worker has dequeued it and will
call its handler, or the handler was called. -/
def Served (s : State W T) (i : ℕ) : Prop :=
  s.log.dequeued.length ≤ i ∨ (∃ w task, s.worker w = .got task i) ∨
    ∃ r ∈ s.log.called, r.index = i

/-- The queue holds the accepted tasks that were not dequeued, `waiting` is its length less the
number of workers that look for a task, and no accepted task was lost. -/
structure Consistent [DecidableEq T] [Fintype W] (s : State W T) : Prop where
  queue : s.tp.queue.Represents s.queued
  waiting : s.tp.waiting = (s.queued.length : ℤ) - s.looking.card
  served : ∀ i < s.log.accepted.length, Served s i

/-- The unlock after the dequeue reports an error. -/
def Loses (s : State W T) : Act W T → Prop
  | .enter _ lockRc unlockRc => lockRc = .OK ∧ s.tp.queue.first ≠ none ∧ unlockRc = .ERROR
  | .resume _ waitRc unlockRc => waitRc = .OK ∧ s.tp.queue.first ≠ none ∧ unlockRc = .ERROR
  | _ => False

/-- No worker is sent out of its loop after it has changed the pool. -/
def Harmless (s : State W T) (a : Act W T) : Prop := WaitSucceeds a ∧ ¬ Loses s a

/-- A step that dequeues nothing and calls no handler. -/
lemma served_frame (hd : s'.log.dequeued = s.log.dequeued) (hc : s'.log.called = s.log.called)
    (hg : ∀ w task i, s'.worker w = .got task i ↔ s.worker w = .got task i) :
    Served s' i ↔ Served s i := by
  simp only [Served, hd, hc, hg]

section Worker

variable [DecidableEq W]

lemma got_update {w : W} {pc : Pc T} (hw : ∀ task i, s.worker w ≠ .got task i)
    (hpc : ∀ task i, pc ≠ .got task i) (v : W) (task : Task T) (i : ℕ) :
    Function.update s.worker w pc v = .got task i ↔ s.worker v = .got task i := by
  by_cases hv : v = w
  · rw [hv, Function.update_self]
    exact iff_of_false (hpc task i) (hw task i)
  · rw [Function.update_of_ne hv]

/-- The worker that dequeues a task has it until it calls the handler. -/
lemma served_dequeue {w : W} (hw : ∀ task i, s.worker w ≠ .got task i) (task : Task T) :
    Served (s.dequeue w task .OK) i ↔ Served s i := by
  have hself : (s.dequeue w task .OK).worker w = .got task s.log.dequeued.length :=
    Function.update_self _ _ _
  have hother : ∀ v, v ≠ w → (s.dequeue w task .OK).worker v = s.worker v := fun v hv =>
    Function.update_of_ne hv _ _
  have hlen : (s.dequeue w task .OK).log.dequeued.length = s.log.dequeued.length + 1 :=
    List.length_append
  constructor
  · rintro (hi | ⟨v, u, hv⟩ | hc)
    · exact .inl (by omega)
    · by_cases hvw : v = w
      · rw [hvw, hself, Pc.got.injEq] at hv
        exact .inl hv.2.le
      · exact .inr (.inl ⟨v, u, (hother v hvw).symm.trans hv⟩)
    · exact .inr (.inr hc)
  · rintro (hi | ⟨v, u, hv⟩ | hc)
    · rcases hi.eq_or_lt with rfl | hlt
      · exact .inr (.inl ⟨w, task, hself⟩)
      · exact .inl (by omega)
    · have hvw : v ≠ w := fun he => hw u i (he ▸ hv)
      exact .inr (.inl ⟨v, u, (hother v hvw).trans hv⟩)
    · exact .inr (.inr hc)

/-- If the unlock after the dequeue fails, the task is gone with the worker. -/
lemma served_dequeue_error (hst : Stages s) {w : W} (hw : ∀ task i, s.worker w ≠ .got task i)
    (task : Task T) :
    Served (s.dequeue w task .ERROR) i ↔ Served s i ∧ i ≠ s.log.dequeued.length := by
  have hgot : ∀ v u j, (s.dequeue w task .ERROR).worker v = .got u j ↔ s.worker v = .got u j :=
    got_update hw (by simp)
  have hlen : (s.dequeue w task .ERROR).log.dequeued.length = s.log.dequeued.length + 1 :=
    List.length_append
  have hlt : ∀ {x : W × Task T}, s.log.dequeued[i]? = some x → i ≠ s.log.dequeued.length := by
    intro x hx
    obtain ⟨hi, -⟩ := List.getElem?_eq_some_iff.mp hx
    exact hi.ne
  constructor
  · rintro (hi | ⟨v, u, hv⟩ | ⟨r, hr, rfl⟩)
    · exact ⟨.inl (by omega), by omega⟩
    · have hold := (hgot v u i).mp hv
      exact ⟨.inr (.inl ⟨v, u, hold⟩), hlt (hst.dequeued (.inl hold))⟩
    · exact ⟨.inr (.inr ⟨r, hr, rfl⟩), hlt (hst.called r hr)⟩
  · rintro ⟨hi | ⟨v, u, hv⟩ | hc, hne⟩
    · exact .inl (by omega)
    · exact .inr (.inl ⟨v, u, (hgot v u i).mpr hv⟩)
    · exact .inr (.inr hc)

/-- Calling the handler serves the task that the worker has. -/
lemma served_call {w : W} {task : Task T} {j : ℕ} (hw : s.worker w = .got task j) :
    Served (s.call w task j) i ↔ Served s i := by
  have hself : (s.call w task j).worker w = .handling task j := Function.update_self _ _ _
  have hother : ∀ v, v ≠ w → (s.call w task j).worker v = s.worker v := fun v hv =>
    Function.update_of_ne hv _ _
  constructor
  · rintro (hi | ⟨v, u, hv⟩ | ⟨r, hr, rfl⟩)
    · exact .inl hi
    · by_cases hvw : v = w
      · rw [hvw, hself] at hv
        cases hv
      · exact .inr (.inl ⟨v, u, (hother v hvw).symm.trans hv⟩)
    · rcases List.mem_cons.mp hr with rfl | hr
      · exact .inr (.inl ⟨w, task, hw⟩)
      · exact .inr (.inr ⟨r, hr, rfl⟩)
  · rintro (hi | ⟨v, u, hv⟩ | ⟨r, hr, rfl⟩)
    · exact .inl hi
    · by_cases hvw : v = w
      · rw [hvw, hw, Pc.got.injEq] at hv
        exact .inr (.inr ⟨⟨j, w, task⟩, List.mem_cons_self, hv.2⟩)
      · exact .inr (.inl ⟨v, u, (hother v hvw).trans hv⟩)
    · exact .inr (.inr ⟨r, List.mem_cons_of_mem _ hr, rfl⟩)

end Worker

variable [DecidableEq W] [DecidableEq T]

lemma served_post (task : Task T) (lockRc signalRc : Rc) {wakes : Finset W}
    (hw : ∀ w ∈ wakes, s.worker w = .blocked) :
    Served (s.post task lockRc signalRc wakes).2 i ↔ Served s i := by
  have hsignal : ∀ w u j, (s.signal wakes).worker w = .got u j ↔ s.worker w = .got u j := by
    intro w u j
    simp only [State.signal]
    split_ifs with hm
    · rw [hw w hm]
      simp
    · rfl
  rcases threadTaskPost_cases s task lockRc signalRc wakes with hr | hr | ⟨-, hr⟩
  · rw [State.post, hr]
    exact served_frame rfl rfl fun _ _ _ => Iff.rfl
  · rw [State.post, hr]
    exact served_frame rfl rfl fun _ _ _ => Iff.rfl
  · rw [State.post, hr]
    exact served_frame rfl rfl hsignal

omit [DecidableEq T] in
/-- The part of a critical section that may dequeue a task. -/
lemma served_takeTask {w : W} (hw : ∀ task i, s.worker w ≠ .got task i) (rc : Rc)
    (hno : ¬ (s.tp.queue.first ≠ none ∧ rc = .ERROR)) :
    Served (s.takeTask w rc) i ↔ Served s i := by
  rw [State.takeTask]
  split
  · exact served_frame rfl rfl (got_update hw (by simp))
  · rename_i task hfirst
    cases rc with
    | OK => exact served_dequeue hw task
    | ERROR => exact absurd ⟨by simp [hfirst], rfl⟩ hno

omit [DecidableEq T] in
lemma served_takeTask_error (hst : Stages s) {w : W} (hw : ∀ task i, s.worker w ≠ .got task i)
    (hfirst : s.tp.queue.first ≠ none) :
    Served (s.takeTask w .ERROR) i ↔ Served s i ∧ i ≠ s.log.dequeued.length := by
  rw [State.takeTask]
  split
  · exact absurd ‹_› hfirst
  · exact served_dequeue_error hst hw _

variable [Fintype W] {a : Act W T}

/-- A step that loses no task serves the same acceptances as before. -/
theorem served_step (hno : ¬ Loses s a) (hs : step s a = some s') :
    Served s' i ↔ Served s i := by
  cases a with
  | alloc t | release t =>
    obtain ⟨-, he⟩ := Option.ite_none_right_eq_some.mp hs
    cases he
    exact served_frame rfl rfl fun _ _ _ => Iff.rfl
  | post t lockRc signalRc wakes =>
    obtain ⟨⟨-, -, -, hw, -⟩, he⟩ := Option.ite_none_right_eq_some.mp hs
    cases he
    exact served_post _ lockRc signalRc hw
  | enter w lockRc unlockRc =>
    obtain ⟨hw, he⟩ := Option.ite_none_right_eq_some.mp hs
    cases he
    have hgot : ∀ task i, s.worker w ≠ .got task i := by simp [hw]
    cases lockRc with
    | ERROR => exact served_frame rfl rfl (got_update hgot (by simp))
    | OK =>
      have htake := served_takeTask (s := s.decWaiting) (i := i) hgot unlockRc
        fun hlose => hno ⟨rfl, hlose.1, hlose.2⟩
      exact htake.trans (served_frame rfl rfl fun _ _ _ => Iff.rfl)
  | resume w waitRc unlockRc =>
    obtain ⟨hw, he⟩ := Option.ite_none_right_eq_some.mp hs
    cases he
    have hgot : ∀ task i, s.worker w ≠ .got task i := by simp [hw]
    cases waitRc with
    | ERROR => exact served_frame rfl rfl (got_update hgot (by simp))
    | OK => exact served_takeTask hgot unlockRc fun hlose => hno ⟨rfl, hlose.1, hlose.2⟩
  | wake w =>
    obtain ⟨hw, he⟩ := Option.ite_none_right_eq_some.mp hs
    cases he
    exact served_frame rfl rfl (got_update (by simp [hw]) (by simp))
  | call w =>
    obtain ⟨task, j, hpc, rfl⟩ := step_call hs
    exact served_call hpc
  | ret w =>
    obtain ⟨t, j, hpc, rfl⟩ := step_ret hs
    exact served_frame rfl rfl (got_update (by simp [hpc]) (by simp))
  | free w =>
    obtain ⟨task, j, hpc, rfl⟩ := step_free hs
    exact served_frame rfl rfl (got_update (by simp [hpc]) (by simp))
  | exit w =>
    obtain ⟨j, hpc, rfl⟩ | ⟨hpc, rfl⟩ := step_exit hs
    · exact served_frame rfl rfl (got_update (by simp [hpc]) (by simp))
    · exact served_frame rfl rfl (got_update (by simp [hpc]) (by simp))
  | destroy lockRc signalRc wakes =>
    obtain ⟨⟨hw, -⟩, he⟩ := Option.ite_none_right_eq_some.mp hs
    rcases destroy_cases he with ⟨l, d, rfl⟩ | ⟨d, rfl⟩
    · exact served_frame rfl rfl fun _ _ _ => Iff.rfl
    · exact served_post .exit lockRc signalRc hw

/-- A failed unlock loses the acceptance that was to be dequeued, and no other one. -/
theorem served_step_loses (hst : Stages s) (hlose : Loses s a) (hs : step s a = some s') :
    Served s' i ↔ Served s i ∧ i ≠ s.log.dequeued.length := by
  cases a with
  | enter w lockRc unlockRc =>
    obtain ⟨hw, he⟩ := Option.ite_none_right_eq_some.mp hs
    obtain ⟨rfl, hfirst, rfl⟩ := hlose
    cases he
    have hdec : Stages s.decWaiting := hst.idle rfl rfl rfl rfl fun _ => .inl rfl
    have hgot : ∀ task i, s.worker w ≠ .got task i := by simp [hw]
    have htake : Served (s.decWaiting.takeTask w .ERROR) i ↔
        Served s.decWaiting i ∧ i ≠ s.log.dequeued.length :=
      served_takeTask_error hdec hgot hfirst
    exact htake.trans (and_congr_left' (served_frame rfl rfl fun _ _ _ => Iff.rfl))
  | resume w waitRc unlockRc =>
    obtain ⟨hw, he⟩ := Option.ite_none_right_eq_some.mp hs
    obtain ⟨rfl, hfirst, rfl⟩ := hlose
    cases he
    exact served_takeTask_error hst (by simp [hw]) hfirst
  | _ => exact hlose.elim

/-- A failed wait adds one to the drift. -/
lemma drift_step_error (hno : ¬ WaitSucceeds a) (hs : step s a = some s') :
    s'.drift = s.drift + 1 := by
  cases a with
  | resume w waitRc unlockRc =>
    obtain ⟨hw, he⟩ := Option.ite_none_right_eq_some.mp hs
    cases waitRc with
    | OK => exact absurd rfl hno
    | ERROR =>
      cases he
      exact drift_leave hw unlockRc
  | _ => exact absurd trivial hno

/-- What holds as long as every step was harmless. -/
structure Sound (s : State W T) : Prop where
  owns : Owns s
  stages : Stages s
  drift : s.drift = 0
  served : ∀ i, Served s i

/-- `waiting` has fallen behind, or a task was lost. -/
structure Damaged (s : State W T) : Prop where
  owns : Owns s
  stages : Stages s
  damage : 0 < s.drift ∨ ∃ i, ¬ Served s i

omit [DecidableEq W] in
lemma Sound.consistent (h : Sound s) : Consistent s := by
  refine ⟨h.owns.queue, ?_, fun i _ => h.served i⟩
  have hdrift := h.drift
  simp only [State.drift] at hdrift
  omega

omit [DecidableEq W] in
lemma Damaged.not_consistent (h : Damaged s) : ¬ Consistent s := by
  rintro ⟨-, hwaiting, hserved⟩
  rcases h.damage with hdrift | ⟨i, hi⟩
  · simp only [State.drift] at hdrift
    omega
  · -- an acceptance that is not served was dequeued
    have hlen := h.owns.length_le
    have hdeq : ¬ s.log.dequeued.length ≤ i := fun hle => hi (.inl hle)
    exact hi (hserved i (by omega))

lemma Sound.step (h : Sound s) (hok : Harmless s a) (hs : ThreadPool.step s a = some s') :
    Sound s' :=
  ⟨h.owns.step hs, h.stages.step hs, (drift_step h.owns hok.1 hs).trans h.drift,
    fun i => (served_step hok.2 hs).mpr (h.served i)⟩

lemma Sound.damaged (h : Sound s) (hno : ¬ Harmless s a) (hs : ThreadPool.step s a = some s') :
    Damaged s' := by
  refine ⟨h.owns.step hs, h.stages.step hs, ?_⟩
  by_cases hwait : WaitSucceeds a
  · have hlose : Loses s a := by
      by_contra hl
      exact hno ⟨hwait, hl⟩
    refine .inr ⟨s.log.dequeued.length, fun hserved => ?_⟩
    exact ((served_step_loses h.stages hlose hs).mp hserved).2 rfl
  · left
    rw [drift_step_error hwait hs, h.drift]
    omega

/-- Nothing repairs the damage. -/
lemma Damaged.step (h : Damaged s) (hs : ThreadPool.step s a = some s') : Damaged s' := by
  refine ⟨h.owns.step hs, h.stages.step hs, h.damage.imp ?_ ?_⟩
  · intro hdrift
    by_cases hwait : WaitSucceeds a
    · rwa [drift_step h.owns hwait hs]
    · rw [drift_step_error hwait hs]
      omega
  · rintro ⟨i, hi⟩
    refine ⟨i, fun hserved => hi ?_⟩
    by_cases hlose : Loses s a
    · exact ((served_step_loses h.stages hlose hs).mp hserved).1
    · exact (served_step hlose hs).mp hserved

variable {maxQueue : ℤ}

/-- After any run, the pool is consistent exactly if in this run no `thread_cond_wait` and no
unlock after a dequeue reported an error to a worker. -/
theorem consistent_iff {acts : List (Act W T)}
    (h : (system W T maxQueue).exec (start W T maxQueue) acts = some s) :
    Consistent s ↔ (system W T maxQueue).Along Harmless (start W T maxQueue) acts := by
  have hnone : (start W T maxQueue).looking = ∅ := by
    ext w
    simp [start, Pc.Looking]
  have hdrift : (start W T maxQueue).drift = 0 := by
    rw [State.drift, hnone]
    rfl
  have hstart : Sound (start W T maxQueue) :=
    ⟨owns_start, stages_start, hdrift, fun i => .inl (Nat.zero_le i)⟩
  exact System.exec_iff_along (I := Sound) (D := Damaged) (fun _ hs => hs.consistent)
    (fun _ hs => hs.not_consistent) (fun _ _ _ hs hok hstep => hs.step hok hstep)
    (fun _ _ _ hs hno hstep => hs.damaged hno hstep) (fun _ _ _ hs hstep => hs.step hstep)
    hstart h

/-- A worker whose lock fails at the top of the loop leaves nothing undone. -/
theorem consistent_iff_lock :
    ∃ s, (system (Fin 2) (Fin 1) 8).exec (start (Fin 2) (Fin 1) 8)
        [.alloc 0, .enter 0 .ERROR .OK, .post 0 .OK .OK ∅, .enter 1 .OK .OK] = some s ∧
      s.worker 0 = .left ∧ Consistent s := by
  have hrun : ((system (Fin 2) (Fin 1) 8).exec (start (Fin 2) (Fin 1) 8)
      [.alloc 0, .enter 0 .ERROR .OK, .post 0 .OK .OK ∅, .enter 1 .OK .OK]).map
      (·.worker 0) = some .left := by
    decide +kernel
  obtain ⟨s, hs, hleft⟩ := Option.map_eq_some_iff.mp hrun
  refine ⟨s, hs, hleft, (consistent_iff hs).mpr ?_⟩
  simp [System.Along, Harmless, WaitSucceeds, Loses]

/-- After a failed wait nothing is queued, nobody waits, and `waiting` is -1. After a failed
unlock the accepted task is neither queued nor with a worker, and its handler was not called. -/
theorem error_damages :
    (∃ s, (system (Fin 1) (Fin 1) 8).exec (start (Fin 1) (Fin 1) 8)
        [.enter 0 .OK .OK, .wake 0, .resume 0 .ERROR .OK] = some s ∧
      s.tp.waiting = -1 ∧ s.queued = [] ∧ s.worker 0 = .left ∧ ¬ Consistent s) ∧
    (∃ s, (system (Fin 1) (Fin 1) 8).exec (start (Fin 1) (Fin 1) 8)
        [.alloc 0, .post 0 .OK .OK ∅, .enter 0 .OK .ERROR] = some s ∧
      s.log.accepted = [.heap 0] ∧ s.queued = [] ∧ s.worker 0 = .left ∧ s.log.called = [] ∧
      ¬ Consistent s) := by
  constructor
  · have hrun : ((system (Fin 1) (Fin 1) 8).exec (start (Fin 1) (Fin 1) 8)
        [.enter 0 .OK .OK, .wake 0, .resume 0 .ERROR .OK]).map
        (fun s => (s.tp.waiting, s.queued, s.worker 0, s.looking.card)) =
        some (-1, [], .left, 0) := by
      decide +kernel
    obtain ⟨s, hs, he⟩ := Option.map_eq_some_iff.mp hrun
    simp only [Prod.mk.injEq] at he
    obtain ⟨hwaiting, hqueued, hleft, hlooking⟩ := he
    refine ⟨s, hs, hwaiting, hqueued, hleft, ?_⟩
    rintro ⟨-, hc, -⟩
    rw [hwaiting, hqueued, hlooking] at hc
    cases hc
  · have hrun : ((system (Fin 1) (Fin 1) 8).exec (start (Fin 1) (Fin 1) 8)
        [.alloc 0, .post 0 .OK .OK ∅, .enter 0 .OK .ERROR]).map
        (fun s => (s.log.accepted, s.queued, s.worker 0, s.log.called.length,
          s.log.dequeued.length)) = some ([.heap 0], [], .left, 0, 1) := by
      decide +kernel
    obtain ⟨s, hs, he⟩ := Option.map_eq_some_iff.mp hrun
    simp only [Prod.mk.injEq] at he
    obtain ⟨hacc, hqueued, hleft, hlen, hdeq⟩ := he
    have hcalled := List.length_eq_zero_iff.mp hlen
    refine ⟨s, hs, hacc, hqueued, hleft, hcalled, fun hc => ?_⟩
    rcases hc.served 0 (by simp [hacc]) with hi | ⟨w, task, hw⟩ | ⟨r, hr, -⟩
    · omega
    · rw [Subsingleton.elim w 0, hleft] at hw
      cases hw
    · rw [hcalled] at hr
      cases hr

end ShareBike.ThreadPool
