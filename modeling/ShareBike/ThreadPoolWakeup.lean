import ShareBike.ThreadPoolRuns
import Mathlib.Data.Finset.Card

/-!
# No wake-up is lost

While some worker sleeps in `thread_cond_wait`, every queued task has a worker
of its own that was woken and will look at the queue. A post wakes one worker
before it adds a task; a busy worker that takes a task in its place leaves the
woken one without a task, never a task without a woken worker.
-/
namespace ShareBike.ThreadPool
open ShareBike.Lib Finset

variable {W T : Type} [DecidableEq W] [DecidableEq T] [Fintype W] {s s' : State W T}

/-- The workers that were woken and have not yet taken the mutex again. -/
def State.woken (s : State W T) : Finset W := univ.filter fun w => s.worker w = .woken

/-- The workers that are awake and on their way to the dequeue. -/
def State.onTheWay (s : State W T) : Finset W :=
  univ.filter fun w => s.worker w = .top ∨ s.worker w = .woken

omit [DecidableEq W] in
@[simp] lemma mem_woken {w : W} : w ∈ s.woken ↔ s.worker w = .woken := by
  simp [State.woken]

/-- A sleeping worker means that there are enough woken ones. -/
def Covered (s : State W T) : Prop :=
  (∃ w, s.worker w = .blocked) → s.queued.length ≤ s.woken.card

omit [DecidableEq W] in
/-- Steps that add neither tasks nor sleepers, and use no wake-up. -/
lemma Covered.mono (h : Covered s) (hq : s'.queued.length ≤ s.queued.length)
    (hb : ∀ w, s'.worker w = .blocked → s.worker w = .blocked)
    (hw : ∀ w, s.worker w = .woken → s'.worker w = .woken) : Covered s' := by
  rintro ⟨w, hs⟩
  have hsub : s.woken ⊆ s'.woken := by
    intro v hv
    rw [mem_woken] at hv ⊢
    exact hw v hv
  exact hq.trans ((h ⟨w, hb w hs⟩).trans (card_le_card hsub))

/-- A worker that is neither asleep nor woken goes somewhere else. -/
lemma Covered.setWorker (h : Covered s) {w : W} {pc : Pc T} (hw : s.worker w ≠ .woken)
    (hpc : pc ≠ .blocked) (hq : s'.queued.length ≤ s.queued.length)
    (hs : s'.worker = Function.update s.worker w pc) : Covered s' := by
  refine h.mono hq ?_ ?_
  · intro v hv
    rw [hs] at hv
    by_cases hvw : v = w
    · rw [hvw, Function.update_self] at hv
      exact absurd hv hpc
    · rwa [Function.update_of_ne hvw] at hv
  · intro v hv
    have hvw : v ≠ w := fun he => hw (he ▸ hv)
    rw [hs, Function.update_of_ne hvw]
    exact hv

omit [DecidableEq W] [DecidableEq T] [Fintype W] in
lemma Owns.queued_eq_nil (h : Owns s) (hfirst : s.tp.queue.first = none) : s.queued = [] := by
  rw [h.queue.first] at hfirst
  exact List.head?_eq_none_iff.mp hfirst

omit [DecidableEq W] in
lemma covered_of_empty (h : s.queued = []) : Covered s := by
  intro _
  rw [h]
  exact Nat.zero_le _

/-- A worker that comes from elsewhere takes a task, or finds none. -/
lemma Covered.enter (h : Covered s) (hown : Owns s) {w : W} (hw : s.worker w = .top)
    (lockRc unlockRc : Rc) : Covered (s.enter w lockRc unlockRc) := by
  have hne : s.worker w ≠ .woken := by simp [hw]
  cases lockRc with
  | ERROR => exact h.setWorker hne (by simp) le_rfl rfl
  | OK =>
    simp only [State.enter, State.takeTask]
    split
    · exact covered_of_empty (hown.queued_eq_nil ‹_›)
    · refine h.setWorker hne ?_ ?_ rfl
      · cases unlockRc <;> simp
      · rw [queued_dequeue, List.length_tail]
        exact Nat.sub_le _ _

/-- A woken worker uses up its wake-up together with a task. -/
lemma Covered.resume (h : Covered s) (hown : Owns s) {w : W} (hw : s.worker w = .woken)
    (unlockRc : Rc) : Covered (s.resume w .OK unlockRc) := by
  simp only [State.resume, State.takeTask]
  split
  · exact covered_of_empty (hown.queued_eq_nil ‹_›)
  · rename_i task _
    rintro ⟨v, hv⟩
    have hne : v ≠ w := by
      rintro rfl
      simp only [State.dequeue, Function.update_self] at hv
      cases unlockRc <;> cases hv
    simp only [State.dequeue, Function.update_of_ne hne] at hv
    have hle := h ⟨v, hv⟩
    have hsub : s.woken.erase w ⊆ (s.dequeue w task unlockRc).woken := by
      intro u hu
      obtain ⟨huw, hu⟩ := mem_erase.mp hu
      rw [mem_woken] at hu ⊢
      simpa only [State.dequeue, Function.update_of_ne huw] using hu
    have hcard := card_le_card hsub
    rw [card_erase_of_mem (mem_woken.mpr hw)] at hcard
    rw [queued_dequeue, List.length_tail]
    omega

/-- A post wakes a sleeper, if there is one, for the task that it adds. -/
lemma Covered.post (h : Covered s) (hown : Owns s) (task : Task T) (lockRc signalRc : Rc)
    {wakes : Finset W} (hw : s.Wakes wakes) :
    Covered (s.post task lockRc signalRc wakes).2 := by
  rcases threadTaskPost_cases s task lockRc signalRc wakes with hr | hr | ⟨-, hr⟩
  · rw [State.post, hr]
    exact h
  · rw [State.post, hr]
    exact h
  · rw [State.post, hr]
    obtain ⟨hblocked, hsome⟩ := hw
    rintro ⟨v, hv⟩
    change (if v ∈ wakes then Pc.woken else s.worker v) = .blocked at hv
    split_ifs at hv with hvw
    have hle := h ⟨v, hv⟩
    have hpos : 0 < wakes.card := by
      refine card_pos.mpr (nonempty_iff_ne_empty.mpr fun he => ?_)
      exact hsome he v hv
    have hdisj : Disjoint s.woken wakes := by
      rw [disjoint_left]
      intro u hu hm
      rw [mem_woken, hblocked u hm] at hu
      cases hu
    have hsub : s.woken ∪ wakes ⊆ ((s.stamp task).signal wakes).woken := by
      intro u hu
      rw [mem_woken]
      simp only [State.signal]
      split_ifs with hm
      · rfl
      · rcases mem_union.mp hu with hu | hu
        · exact mem_woken.mp hu
        · exact absurd hu hm
    have hcard := card_le_card hsub
    rw [card_union_of_disjoint hdisj] at hcard
    have hlen := hown.length_accept task
    change ((s.log.accepted ++ [task]).drop s.log.dequeued.length).length ≤
      ((s.stamp task).signal wakes).woken.card
    omega

/-- `thread_cond_wait` reports no error in this step. -/
def WaitSucceeds : Act W T → Prop
  | .resume _ waitRc _ => waitRc = .OK
  | _ => True

lemma Covered.step (h : Covered s) (hown : Owns s) {a : Act W T} (hok : WaitSucceeds a)
    (hs : step s a = some s') : Covered s' := by
  cases a with
  | alloc t =>
    obtain ⟨-, he⟩ := Option.ite_none_right_eq_some.mp hs
    cases he
    exact h
  | release t =>
    obtain ⟨-, he⟩ := Option.ite_none_right_eq_some.mp hs
    cases he
    exact h
  | post t lockRc signalRc wakes =>
    obtain ⟨⟨-, -, -, hw⟩, he⟩ := Option.ite_none_right_eq_some.mp hs
    cases he
    exact h.post hown _ lockRc signalRc hw
  | enter w lockRc unlockRc =>
    obtain ⟨hw, he⟩ := Option.ite_none_right_eq_some.mp hs
    cases he
    exact h.enter hown hw lockRc unlockRc
  | resume w waitRc unlockRc =>
    obtain ⟨hw, he⟩ := Option.ite_none_right_eq_some.mp hs
    cases he
    obtain rfl : waitRc = .OK := hok
    exact h.resume hown hw unlockRc
  | wake w =>
    obtain ⟨hw, he⟩ := Option.ite_none_right_eq_some.mp hs
    cases he
    exact h.setWorker (by simp [hw]) (by simp) le_rfl rfl
  | call w =>
    obtain ⟨task, i, hpc, rfl⟩ := step_call hs
    exact h.setWorker (by simp [hpc]) (by simp) le_rfl rfl
  | ret w =>
    obtain ⟨t, i, hpc, rfl⟩ := step_ret hs
    exact h.setWorker (by simp [hpc]) (by simp) le_rfl rfl
  | free w =>
    obtain ⟨task, i, hpc, rfl⟩ := step_free hs
    exact h.setWorker (by simp [hpc]) (by simp) le_rfl rfl
  | exit w =>
    obtain ⟨i, hpc, rfl⟩ | ⟨hpc, rfl⟩ := step_exit hs
    · exact h.setWorker (by simp [hpc]) (by simp) le_rfl rfl
    · exact h.setWorker (by simp [hpc]) (by simp) le_rfl rfl
  | destroy lockRc signalRc wakes =>
    obtain ⟨hw, he⟩ := Option.ite_none_right_eq_some.mp hs
    rcases destroy_cases he with ⟨l, d, rfl⟩ | ⟨d, rfl⟩
    · exact h
    · exact h.post hown .exit lockRc signalRc hw

/-- While a worker is asleep in `thread_cond_wait`, the queue is no longer than
the number of workers on their way to the dequeue; so it is never the case that
a task waits and every idle worker sleeps. -/
theorem no_lost_wakeup {maxQueue : ℤ}
    (h : (system W T maxQueue).Reach (fun _ a => WaitSucceeds a) s)
    (hb : ∃ w, s.worker w = .blocked) :
    (∃ l, s.tp.queue.Represents l ∧ l.length ≤ s.onTheWay.card) ∧
      (s.tp.queue.first ≠ none → ∃ w, s.worker w = .woken) := by
  have hcov : Covered s := by
    refine h.invariant_under (J := Owns) (fun _ hr => owns_of_reach hr) ?_ ?_
    · rintro s rfl
      exact covered_of_empty rfl
    · exact fun _ _ _ hown hc hok hstep => hc.step hown hok hstep
  have hown := owns_of_reach h
  have hsub : s.woken ⊆ s.onTheWay := by
    intro w hw
    simp [State.onTheWay, mem_woken.mp hw]
  refine ⟨⟨s.queued, hown.queue, (hcov hb).trans (card_le_card hsub)⟩, fun hfirst => ?_⟩
  have hpos : 0 < s.queued.length := by
    rw [hown.queue.first] at hfirst
    exact List.length_pos_iff.mpr fun he => hfirst (by rw [he]; rfl)
  obtain ⟨w, hw⟩ := card_pos.mp (hpos.trans_le (hcov hb))
  exact ⟨w, mem_woken.mp hw⟩

/-- Worker 1 sleeps, worker 0 was woken for the task and has not yet run. -/
theorem no_lost_wakeup_signalled :
    ∃ s, (system (Fin 2) (Fin 1) 8).exec (start (Fin 2) (Fin 1) 8) [.alloc 0,
        .enter 0 .OK .OK, .enter 1 .OK .OK, .post 0 .OK .OK {0}] = some s ∧
      s.worker 1 = .blocked ∧ ∃ w, s.worker w = .woken := by
  have hrun : ((system (Fin 2) (Fin 1) 8).exec (start (Fin 2) (Fin 1) 8) [.alloc 0,
      .enter 0 .OK .OK, .enter 1 .OK .OK, .post 0 .OK .OK {0}]).map
      (fun s => (s.worker 1, s.tp.queue.first)) = some (.blocked, some (.heap 0)) := by
    decide +kernel
  obtain ⟨s, hs, he⟩ := Option.map_eq_some_iff.mp hrun
  simp only [Prod.mk.injEq] at he
  have hreach : (system (Fin 2) (Fin 1) 8).Reach (fun _ a => WaitSucceeds a) s := by
    refine System.Reach.exec (.init rfl) (fun _ a ha => ?_) hs
    simp only [List.mem_cons, List.not_mem_nil, or_false] at ha
    rcases ha with rfl | rfl | rfl | rfl <;> trivial
  exact ⟨s, hs, he.1, (no_lost_wakeup hreach ⟨1, he.1⟩).2 (by simp [he.2])⟩

end ShareBike.ThreadPool
