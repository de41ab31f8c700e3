import ShareBike.ThreadPoolDestroy
import ShareBike.ThreadPoolWakeup
import Mathlib.Data.Finset.Card

/-!
# What `waiting` counts

A post adds one to `tp->waiting`, and a worker takes one away when it starts to look
for a task, not when it gets one. So `waiting` is the number of queued tasks less the
number of workers that still look, and it is this difference that `thread_task_post`
compares with `max_queue`.
-/
namespace ShareBike.ThreadPool
open ShareBike.Lib Finset

/-- The worker has decremented `waiting` and not yet dequeued a task. -/
def Pc.Looking {T : Type} (pc : Pc T) : Prop := pc = .blocked ∨ pc = .woken

variable {W T : Type} [DecidableEq T] [Fintype W] {s s' : State W T}

instance (pc : Pc T) : Decidable pc.Looking := inferInstanceAs (Decidable (_ ∨ _))

/-- The workers that look for a task. -/
def State.looking (s : State W T) : Finset W := univ.filter fun w => (s.worker w).Looking

@[simp] lemma mem_looking {w : W} : w ∈ s.looking ↔ (s.worker w).Looking := by
  simp [State.looking]

lemma looking_congr (h : ∀ w, (s'.worker w).Looking ↔ (s.worker w).Looking) :
    s'.looking = s.looking := by
  ext w
  simp only [mem_looking, h w]

variable [DecidableEq W]

/-- A worker that goes on without starting or ending its search. -/
lemma looking_update {w : W} {pc : Pc T} (hs : s'.worker = Function.update s.worker w pc)
    (h : pc.Looking ↔ (s.worker w).Looking) : s'.looking = s.looking := by
  apply looking_congr
  intro v
  rw [hs]
  by_cases hv : v = w
  · subst hv
    rw [Function.update_self]
    exact h
  · rw [Function.update_of_ne hv]

lemma looking_insert {w : W} {pc : Pc T} (hs : s'.worker = Function.update s.worker w pc)
    (hw : ¬ (s.worker w).Looking) (hpc : pc.Looking) :
    s'.looking.card = s.looking.card + 1 := by
  have hinsert : s'.looking = insert w s.looking := by
    ext v
    simp only [mem_insert, mem_looking, hs]
    by_cases hv : v = w
    · subst hv
      simp [hpc]
    · simp [hv]
  rw [hinsert, card_insert_of_notMem (by simpa using hw)]

lemma looking_erase {w : W} {pc : Pc T} (hs : s'.worker = Function.update s.worker w pc)
    (hw : (s.worker w).Looking) (hpc : ¬ pc.Looking) :
    s'.looking.card + 1 = s.looking.card := by
  have herase : s'.looking = s.looking.erase w := by
    ext v
    simp only [mem_erase, mem_looking, hs]
    by_cases hv : v = w
    · subst hv
      simp [hpc]
    · simp [hv]
  rw [herase, card_erase_add_one (by simpa using hw)]

/-- How far `waiting` is below the number of queued tasks less that of the workers that
look for one. -/
def State.drift (s : State W T) : ℤ := s.queued.length - s.looking.card - s.tp.waiting

omit [DecidableEq W] in
/-- A step that neither posts nor dequeues. -/
lemma drift_frame (hw : s'.tp.waiting = s.tp.waiting) (hq : s'.queued = s.queued)
    (hl : s'.looking = s.looking) : s'.drift = s.drift := by
  rw [State.drift, hq, hl, hw, State.drift]

lemma drift_enter (hown : Owns s) {w : W} (hw : s.worker w = .top) (lockRc unlockRc : Rc) :
    (s.enter w lockRc unlockRc).drift = s.drift := by
  have hnot : ¬ (s.worker w).Looking := by simp [hw, Pc.Looking]
  cases lockRc with
  | ERROR =>
    exact drift_frame rfl rfl (looking_update rfl (iff_of_false (by simp [Pc.Looking]) hnot))
  | OK =>
    simp only [State.enter, State.takeTask]
    split
    · have hcard : (s.decWaiting.setWorker w .blocked).looking.card = s.looking.card + 1 :=
        looking_insert rfl hnot (.inl rfl)
      show (s.queued.length : ℤ) - (s.decWaiting.setWorker w .blocked).looking.card -
        (s.tp.waiting - 1) = s.queued.length - s.looking.card - s.tp.waiting
      omega
    · rename_i task hfirst
      have hsame : (s.decWaiting.dequeue w task unlockRc).looking = s.looking := by
        refine looking_update rfl (iff_of_false ?_ hnot)
        cases unlockRc <;> simp [Pc.Looking]
      have hpos := hown.queued_pos hfirst
      rw [State.drift, hsame, queued_dequeue, List.length_tail]
      show ((s.queued.length - 1 : ℕ) : ℤ) - s.looking.card - (s.tp.waiting - 1) =
        s.queued.length - s.looking.card - s.tp.waiting
      omega

lemma drift_resume (hown : Owns s) {w : W} (hw : s.worker w = .woken) (unlockRc : Rc) :
    (s.resume w .OK unlockRc).drift = s.drift := by
  have hlook : (s.worker w).Looking := .inr hw
  simp only [State.resume, State.takeTask]
  split
  · exact drift_frame rfl rfl (looking_update rfl (iff_of_true (.inl rfl) hlook))
  · rename_i task hfirst
    have hcard : (s.dequeue w task unlockRc).looking.card + 1 = s.looking.card := by
      refine looking_erase rfl hlook ?_
      cases unlockRc <;> simp [Pc.Looking]
    have hpos := hown.queued_pos hfirst
    rw [State.drift, queued_dequeue, List.length_tail]
    show ((s.queued.length - 1 : ℕ) : ℤ) - (s.dequeue w task unlockRc).looking.card -
      s.tp.waiting = s.queued.length - s.looking.card - s.tp.waiting
    omega

/-- A worker that `thread_cond_wait` sends out of the loop leaves `waiting` decremented. -/
lemma drift_leave {w : W} (hw : s.worker w = .woken) (unlockRc : Rc) :
    (s.resume w .ERROR unlockRc).drift = s.drift + 1 := by
  have hcard : (s.setWorker w .left).looking.card + 1 = s.looking.card :=
    looking_erase rfl (.inr hw) (by simp [Pc.Looking])
  show (s.queued.length : ℤ) - (s.setWorker w .left).looking.card - s.tp.waiting =
    s.queued.length - s.looking.card - s.tp.waiting + 1
  omega

lemma drift_post (hown : Owns s) (task : Task T) (lockRc signalRc : Rc) {wakes : Finset W}
    (hw : ∀ w ∈ wakes, s.worker w = .blocked) :
    (s.post task lockRc signalRc wakes).2.drift = s.drift := by
  rcases threadTaskPost_cases s task lockRc signalRc wakes with hr | hr | ⟨-, hr⟩
  · rw [State.post, hr]
    exact drift_frame rfl rfl rfl
  · rw [State.post, hr]
    exact drift_frame rfl rfl rfl
  · rw [State.post, hr]
    have hsame : ((s.stamp task).signal wakes).looking = s.looking := by
      apply looking_congr
      intro w
      simp only [State.signal, State.stamp]
      split_ifs with hm
      · exact iff_of_true (.inr rfl) (.inl (hw w hm))
      · rfl
    have hlen := hown.length_accept task
    show (((s.log.accepted ++ [task]).drop s.log.dequeued.length).length : ℤ) -
      ((s.stamp task).signal wakes).looking.card - (s.tp.waiting + 1) =
        s.queued.length - s.looking.card - s.tp.waiting
    rw [hsame, hlen]
    omega

/-- `waiting` keeps up as long as `thread_cond_wait` succeeds. -/
theorem drift_step (hown : Owns s) {a : Act W T} (hok : WaitSucceeds a)
    (hs : step s a = some s') : s'.drift = s.drift := by
  cases a with
  | alloc t | release t =>
    obtain ⟨-, he⟩ := Option.ite_none_right_eq_some.mp hs
    cases he
    exact drift_frame rfl rfl rfl
  | post t lockRc signalRc wakes =>
    obtain ⟨⟨-, -, -, hw⟩, he⟩ := Option.ite_none_right_eq_some.mp hs
    cases he
    exact drift_post hown _ lockRc signalRc hw.1
  | enter w lockRc unlockRc =>
    obtain ⟨hw, he⟩ := Option.ite_none_right_eq_some.mp hs
    cases he
    exact drift_enter hown hw lockRc unlockRc
  | resume w waitRc unlockRc =>
    obtain ⟨hw, he⟩ := Option.ite_none_right_eq_some.mp hs
    obtain rfl : waitRc = .OK := hok
    cases he
    exact drift_resume hown hw unlockRc
  | wake w =>
    obtain ⟨hw, he⟩ := Option.ite_none_right_eq_some.mp hs
    cases he
    exact drift_frame rfl rfl (looking_update rfl (iff_of_true (.inr rfl) (.inl hw)))
  | call w =>
    obtain ⟨task, i, hpc, rfl⟩ := step_call hs
    exact drift_frame rfl rfl (looking_update rfl (by simp [hpc, Pc.Looking]))
  | ret w =>
    obtain ⟨t, i, hpc, rfl⟩ := step_ret hs
    exact drift_frame rfl rfl (looking_update rfl (by simp [hpc, Pc.Looking]))
  | free w =>
    obtain ⟨task, i, hpc, rfl⟩ := step_free hs
    exact drift_frame rfl rfl (looking_update rfl (by simp [hpc, Pc.Looking]))
  | exit w =>
    obtain ⟨i, hpc, rfl⟩ | ⟨hpc, rfl⟩ := step_exit hs
    · exact drift_frame rfl rfl (looking_update rfl (by simp [hpc, Pc.Looking]))
    · exact drift_frame rfl rfl (looking_update rfl (by simp [hpc, Pc.Looking]))
  | destroy lockRc signalRc wakes =>
    obtain ⟨hw, he⟩ := Option.ite_none_right_eq_some.mp hs
    rcases destroy_cases he with ⟨l, d, rfl⟩ | ⟨d, rfl⟩
    · exact drift_frame rfl rfl rfl
    · exact drift_post hown .exit lockRc signalRc hw.1

omit [DecidableEq W] [DecidableEq T] [Fintype W] in
lemma Succeeds.wait {a : Act W T} (h : Succeeds a) : WaitSucceeds a := by
  cases a with
  | resume w waitRc unlockRc => exact h.1
  | _ => trivial

structure Balance (maxQueue : ℤ) (s : State W T) : Prop where
  waiting : s.tp.waiting + s.looking.card = s.queued.length
  threads : s.tp.threads = Fintype.card W
  maxQueue_eq : s.tp.maxQueue = maxQueue

variable {maxQueue : ℤ}

lemma Balance.step (h : Balance maxQueue s) (hown : Owns s) {a : Act W T} (hok : Succeeds a)
    (hs : step s a = some s') : Balance maxQueue s' := by
  have hdrift := drift_step hown hok.wait hs
  have hbal := h.waiting
  obtain ⟨⟨ht, hm⟩, -⟩ := step_frame hs
  refine ⟨?_, ht.trans h.threads, hm.trans h.maxQueue_eq⟩
  simp only [State.drift] at hdrift
  omega

lemma balance_of_reach (h : (system W T maxQueue).Reach (fun _ a => Succeeds a) s) :
    Balance maxQueue s := by
  refine h.invariant_under (J := Owns) (fun _ hr => owns_of_reach hr) ?_ ?_
  · rintro s rfl
    have hnone : (start W T maxQueue).looking = ∅ := by
      ext w
      simp [start, Pc.Looking]
    refine ⟨?_, rfl, rfl⟩
    rw [hnone]
    rfl
  · exact fun _ _ _ hown hb hok hstep => hb.step hown hok hstep

/-- Whenever the mutex is free, `waiting` is the length of the queue less the number
of workers that look for a task; it is at least `-threads`, and `thread_task_post`
refuses a task exactly if that difference has reached `max_queue`, so never while
fewer tasks are queued. -/
theorem waiting_eq (h : (system W T maxQueue).Reach (fun _ a => Succeeds a) s) :
    ∃ l, s.tp.queue.Represents l ∧ s.tp.waiting = (l.length : ℤ) - s.looking.card ∧
      -(s.tp.threads : ℤ) ≤ s.tp.waiting ∧ ∀ task wakes,
        ((s.threadTaskPost task .OK .OK wakes).1 = .ERROR ↔
          maxQueue ≤ (l.length : ℤ) - s.looking.card) ∧
        ((l.length : ℤ) < maxQueue → (s.threadTaskPost task .OK .OK wakes).1 = .OK) := by
  have hbal := balance_of_reach h
  have hwaiting := hbal.waiting
  have hcard : s.looking.card ≤ Fintype.card W := card_le_univ s.looking
  have hpost : ∀ task wakes, (s.threadTaskPost task .OK .OK wakes).1 =
      if s.tp.waiting ≥ maxQueue then .ERROR else .OK := by
    intro task wakes
    simp only [State.threadTaskPost, hbal.maxQueue_eq]
    split_ifs <;> rfl
  refine ⟨s.queued, (owns_of_reach h).queue, by omega, ?_, fun task wakes => ⟨?_, ?_⟩⟩
  · rw [hbal.threads]
    omega
  · rw [hpost]
    split_ifs with hfull
    · exact iff_of_true rfl (by omega)
    · exact iff_of_false (by simp) (by omega)
  · intro hlt
    rw [hpost, if_neg (by omega)]

/-- Two workers look for the task that is queued. -/
theorem waiting_eq_burst :
    ∃ s, (system (Fin 2) (Fin 1) 8).exec (start (Fin 2) (Fin 1) 8) [.alloc 0,
        .enter 0 .OK .OK, .enter 1 .OK .OK, .post 0 .OK .OK {0}] = some s ∧
      s.tp.waiting = -1 ∧ -(s.tp.threads : ℤ) ≤ s.tp.waiting := by
  have hrun : (((system (Fin 2) (Fin 1) 8).guard fun _ a => Succeeds a).exec
      (start (Fin 2) (Fin 1) 8) [.alloc 0, .enter 0 .OK .OK, .enter 1 .OK .OK,
        .post 0 .OK .OK {0}]).map (·.tp.waiting) = some (-1) := by
    decide +kernel
  obtain ⟨s, hs, hwaiting⟩ := Option.map_eq_some_iff.mp hrun
  have hinit : (system (Fin 2) (Fin 1) 8).init (start (Fin 2) (Fin 1) 8) := rfl
  obtain ⟨-, -, -, hle, -⟩ := waiting_eq ((System.Reach.init hinit).exec_guard hs)
  exact ⟨s, System.exec_of_guard hs, hwaiting, hle⟩

end ShareBike.ThreadPool
