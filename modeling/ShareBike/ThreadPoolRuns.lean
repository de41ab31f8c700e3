import ShareBike.ThreadPoolQueue

/-!
# Each acceptance is run at most once

An acceptance is known by its number. The worker that dequeued it calls the
handler, sees it return, and frees the task; the program counter of the worker
says how far it has come, and the log has no later entry for that number.
-/
namespace ShareBike.ThreadPool
open ShareBike.Lib

variable {W T : Type} {s s' : State W T}

/-- What the log says about the task that a worker at this place has. -/
def Log.Stage (log : Log W T) (w : W) : Pc T → Prop
  | .got task i => log.dequeued[i]? = some (w, task) ∧ ∀ r ∈ log.called, r.index ≠ i
  | .handling task i => ⟨i, w, task⟩ ∈ log.called ∧ ∀ r ∈ log.returned, r.index ≠ i
  | .handled task i => ⟨i, w, task⟩ ∈ log.returned ∧ ∀ r ∈ log.freed, r.index ≠ i
  | _ => True

structure Stages (s : State W T) : Prop where
  pc : ∀ w, s.log.Stage w (s.worker w)
  called : ∀ r ∈ s.log.called, s.log.dequeued[r.index]? = some (r.worker, r.task)
  called_once : (s.log.called.map Run.index).Nodup
  returned : s.log.returned ⊆ s.log.called
  returned_once : (s.log.returned.map Run.index).Nodup
  freed : s.log.freed ⊆ s.log.returned
  freed_once : (s.log.freed.map Run.index).Nodup

lemma Log.stage_of_task_none {log : Log W T} {w : W} {pc : Pc T} (h : pc.task = none) :
    log.Stage w pc := by
  cases pc with
  | got task i => cases h
  | handling task i => cases h
  | handled task i => cases h
  | _ => trivial

/-- A worker's task was dequeued by that worker. -/
lemma Stages.dequeued (h : Stages s) {w : W} {task : Task T} {i : ℕ}
    (hpc : s.worker w = .got task i ∨ s.worker w = .handling task i ∨
      s.worker w = .handled task i) : s.log.dequeued[i]? = some (w, task) := by
  have hw := h.pc w
  rcases hpc with hpc | hpc | hpc
  · rw [hpc] at hw
    exact hw.1
  · rw [hpc] at hw
    exact h.called _ hw.1
  · rw [hpc] at hw
    exact h.called _ (h.returned hw.1)

/-- A step that writes nothing into the log, and in which workers at most let go
of their tasks. -/
lemma Stages.idle (h : Stages s) (hd : s'.log.dequeued = s.log.dequeued)
    (hc : s'.log.called = s.log.called) (hr : s'.log.returned = s.log.returned)
    (hf : s'.log.freed = s.log.freed)
    (hpc : ∀ w, s'.worker w = s.worker w ∨ (s'.worker w).task = none) : Stages s' := by
  obtain ⟨p, c, co, r, ro, f, fo⟩ := h
  rw [← hc, ← hd] at c
  rw [← hc] at co
  rw [← hr, ← hc] at r
  rw [← hr] at ro
  rw [← hf, ← hr] at f
  rw [← hf] at fo
  refine ⟨fun w => ?_, c, co, r, ro, f, fo⟩
  rcases hpc w with he | he
  · have hw := p w
    rw [he]
    cases hpw : s.worker w with
    | got task i => rw [hpw] at hw; exact ⟨hd ▸ hw.1, hc ▸ hw.2⟩
    | handling task i => rw [hpw] at hw; exact ⟨hc ▸ hw.1, hr ▸ hw.2⟩
    | handled task i => rw [hpw] at hw; exact ⟨hr ▸ hw.1, hf ▸ hw.2⟩
    | _ => trivial
  · exact Log.stage_of_task_none he

section Worker

variable [DecidableEq W]

lemma update_or {w : W} {pc : Pc T} (hpc : pc.task = none) (v : W) :
    Function.update s.worker w pc v = s.worker v ∨
      (Function.update s.worker w pc v).task = none := by
  by_cases h : v = w
  · rw [h, Function.update_self]
    exact .inr hpc
  · exact .inl (Function.update_of_ne h _ _)

lemma Stages.setWorker (h : Stages s) {w : W} {pc : Pc T} (hpc : pc.task = none) :
    Stages (s.setWorker w pc) :=
  h.idle rfl rfl rfl rfl (update_or hpc)

/-- The next acceptance gets the next number. -/
lemma Stages.dequeue (h : Stages s) (w : W) (task : Task T) (rc : Rc) :
    Stages (s.dequeue w task rc) := by
  have hold : ∀ {i : ℕ} {x : W × Task T}, s.log.dequeued[i]? = some x →
      (s.log.dequeued ++ [(w, task)])[i]? = some x ∧ i ≠ s.log.dequeued.length := by
    intro i x hx
    obtain ⟨hi, -⟩ := List.getElem?_eq_some_iff.mp hx
    exact ⟨by rw [List.getElem?_append_left hi, hx], hi.ne⟩
  refine ⟨fun v => ?_, fun r hr => (hold (h.called r hr)).1, h.called_once, h.returned,
    h.returned_once, h.freed, h.freed_once⟩
  by_cases hv : v = w
  · subst hv
    simp only [State.dequeue, Function.update_self]
    cases rc with
    | OK => exact ⟨by simp, fun r hr => (hold (h.called r hr)).2⟩
    | ERROR => trivial
  · have hpc := h.pc v
    simp only [State.dequeue, Function.update_of_ne hv]
    cases hw : s.worker v with
    | got u i => rw [hw] at hpc; exact ⟨(hold hpc.1).1, hpc.2⟩
    | handling u i => rw [hw] at hpc; exact hpc
    | handled u i => rw [hw] at hpc; exact hpc
    | _ => trivial

lemma Stages.takeTask (h : Stages s) (w : W) (rc : Rc) : Stages (s.takeTask w rc) := by
  rw [State.takeTask]
  split
  · exact h.setWorker rfl
  · exact h.dequeue w _ rc

omit [DecidableEq W] in
/-- Two workers have different acceptances. -/
lemma Stages.index_ne (h : Stages s) {v w : W} {task u : Task T} {i j : ℕ} (hvw : v ≠ w)
    (hw : s.log.dequeued[i]? = some (w, task)) (hv : s.worker v = .got u j ∨
      s.worker v = .handling u j ∨ s.worker v = .handled u j) : i ≠ j := by
  rintro rfl
  have he := (h.dequeued hv).symm.trans hw
  simp only [Option.some.injEq, Prod.mk.injEq] at he
  exact hvw he.1

lemma Stages.call (h : Stages s) {w : W} {task : Task T} {i : ℕ}
    (hw : s.worker w = .got task i) : Stages (s.call w task i) := by
  have hdeq := h.dequeued (.inl hw)
  have hpc := h.pc w
  rw [hw] at hpc
  refine ⟨fun v => ?_, ?_, ?_, fun r hr => List.mem_cons_of_mem _ (h.returned hr),
    h.returned_once, h.freed, h.freed_once⟩
  · by_cases hv : v = w
    · subst hv
      simp only [State.call, State.setWorker, Function.update_self]
      exact ⟨List.mem_cons_self, fun r hr => hpc.2 r (h.returned hr)⟩
    · have hpv := h.pc v
      simp only [State.call, State.setWorker, Function.update_of_ne hv]
      cases hvw : s.worker v with
      | got u j =>
        rw [hvw] at hpv
        refine ⟨hpv.1, fun r hr => ?_⟩
        rcases List.mem_cons.mp hr with rfl | hr
        · exact h.index_ne hv hdeq (.inl hvw)
        · exact hpv.2 r hr
      | handling u j => rw [hvw] at hpv; exact ⟨List.mem_cons_of_mem _ hpv.1, hpv.2⟩
      | handled u j => rw [hvw] at hpv; exact hpv
      | _ => trivial
  · intro r hr
    rcases List.mem_cons.mp hr with rfl | hr
    · exact hdeq
    · exact h.called r hr
  · refine List.nodup_cons.mpr ⟨fun hm => ?_, h.called_once⟩
    obtain ⟨r, hr, he⟩ := List.mem_map.mp hm
    exact hpc.2 r hr he

lemma Stages.ret (h : Stages s) {w : W} {task : Task T} {i : ℕ}
    (hw : s.worker w = .handling task i) : Stages (s.ret w task i) := by
  have hdeq := h.dequeued (.inr (.inl hw))
  have hpc := h.pc w
  rw [hw] at hpc
  refine ⟨fun v => ?_, h.called, h.called_once, List.cons_subset.mpr ⟨hpc.1, h.returned⟩, ?_,
    fun r hr => List.mem_cons_of_mem _ (h.freed hr), h.freed_once⟩
  · by_cases hv : v = w
    · subst hv
      simp only [State.ret, State.setWorker, Function.update_self]
      exact ⟨List.mem_cons_self, fun r hr => hpc.2 r (h.freed hr)⟩
    · have hpv := h.pc v
      simp only [State.ret, State.setWorker, Function.update_of_ne hv]
      cases hvw : s.worker v with
      | got u j => rw [hvw] at hpv; exact hpv
      | handling u j =>
        rw [hvw] at hpv
        refine ⟨hpv.1, fun r hr => ?_⟩
        rcases List.mem_cons.mp hr with rfl | hr
        · exact h.index_ne hv hdeq (.inr (.inl hvw))
        · exact hpv.2 r hr
      | handled u j => rw [hvw] at hpv; exact ⟨List.mem_cons_of_mem _ hpv.1, hpv.2⟩
      | _ => trivial
  · refine List.nodup_cons.mpr ⟨fun hm => ?_, h.returned_once⟩
    obtain ⟨r, hr, he⟩ := List.mem_map.mp hm
    exact hpc.2 r hr he

lemma Stages.freeTask [DecidableEq T] (h : Stages s) {w : W} {task : Task T} {i : ℕ}
    (hw : s.worker w = .handled task i) : Stages (s.freeTask w task i) := by
  have hdeq := h.dequeued (.inr (.inr hw))
  have hpc := h.pc w
  rw [hw] at hpc
  refine ⟨fun v => ?_, h.called, h.called_once, h.returned, h.returned_once,
    List.cons_subset.mpr ⟨hpc.1, h.freed⟩, ?_⟩
  · by_cases hv : v = w
    · subst hv
      simp only [State.freeTask, State.setWorker, Function.update_self]
      trivial
    · have hpv := h.pc v
      simp only [State.freeTask, State.setWorker, Function.update_of_ne hv]
      cases hvw : s.worker v with
      | got u j => rw [hvw] at hpv; exact hpv
      | handling u j => rw [hvw] at hpv; exact hpv
      | handled u j =>
        rw [hvw] at hpv
        refine ⟨hpv.1, fun r hr => ?_⟩
        rcases List.mem_cons.mp hr with rfl | hr
        · exact h.index_ne hv hdeq (.inr (.inr hvw))
        · exact hpv.2 r hr
      | _ => trivial
  · refine List.nodup_cons.mpr ⟨fun hm => ?_, h.freed_once⟩
    obtain ⟨r, hr, he⟩ := List.mem_map.mp hm
    exact hpc.2 r hr he

end Worker

variable [DecidableEq W] [DecidableEq T]

lemma Stages.post (h : Stages s) (task : Task T) (lockRc signalRc : Rc) (wakes : Finset W) :
    Stages (s.post task lockRc signalRc wakes).2 := by
  have hsignal : ∀ w, (s.signal wakes).worker w = s.worker w ∨
      ((s.signal wakes).worker w).task = none := by
    intro w
    simp only [State.signal]
    split_ifs
    · exact .inr rfl
    · exact .inl rfl
  rcases threadTaskPost_cases s task lockRc signalRc wakes with hr | hr | ⟨-, hr⟩
  · simp only [State.post, hr]
    exact h.idle rfl rfl rfl rfl fun _ => .inl rfl
  · simp only [State.post, hr]
    exact h.idle rfl rfl rfl rfl fun _ => .inl rfl
  · simp only [State.post, hr]
    exact h.idle rfl rfl rfl rfl hsignal

/-- A step of `thread_pool_destroy` is a post of its task, or local to it. -/
lemma destroy_cases {lockRc signalRc : Rc} {wakes : Finset W}
    (hs : s.threadPoolDestroy lockRc signalRc wakes = some s') :
    (∃ l d, s' = { s with lock := l, destroyer := d }) ∨
      ∃ d, s' = { (s.post .exit lockRc signalRc wakes).2 with destroyer := d } := by
  unfold State.threadPoolDestroy at hs
  split at hs
  · cases hs
    exact .inl ⟨s.lock, _, rfl⟩
  · split_ifs at hs <;> cases hs
    · exact .inl ⟨1, _, rfl⟩
    · exact .inl ⟨s.lock, _, rfl⟩
  · rcases hr : s.post .exit lockRc signalRc wakes with ⟨_ | _, r⟩
    · rw [hr] at hs
      cases hs
      exact .inr ⟨_, rfl⟩
    · rw [hr] at hs
      cases hs
      exact .inr ⟨_, rfl⟩
  · split_ifs at hs <;> cases hs
    · exact .inl ⟨s.lock, s.destroyer, rfl⟩
    · exact .inl ⟨s.lock, _, rfl⟩
  · cases hs
    exact .inl ⟨s.lock, _, rfl⟩
  · cases hs
    exact .inl ⟨s.lock, _, rfl⟩
  · cases hs
    exact .inl ⟨s.lock, _, rfl⟩
  · cases hs
  · cases hs

theorem Stages.step [Fintype W] (h : Stages s) {a : Act W T} (hs : step s a = some s') :
    Stages s' := by
  cases a with
  | alloc t =>
    obtain ⟨-, he⟩ := Option.ite_none_right_eq_some.mp hs
    cases he
    exact h.idle rfl rfl rfl rfl fun _ => .inl rfl
  | release t =>
    obtain ⟨-, he⟩ := Option.ite_none_right_eq_some.mp hs
    cases he
    exact h.idle rfl rfl rfl rfl fun _ => .inl rfl
  | post t lockRc signalRc wakes =>
    obtain ⟨-, he⟩ := Option.ite_none_right_eq_some.mp hs
    cases he
    exact h.post _ lockRc signalRc wakes
  | enter w lockRc unlockRc =>
    obtain ⟨-, he⟩ := Option.ite_none_right_eq_some.mp hs
    cases he
    cases lockRc with
    | ERROR => exact h.setWorker rfl
    | OK =>
      have hdec : Stages s.decWaiting := h.idle rfl rfl rfl rfl fun _ => .inl rfl
      exact hdec.takeTask w unlockRc
  | resume w waitRc unlockRc =>
    obtain ⟨-, he⟩ := Option.ite_none_right_eq_some.mp hs
    cases he
    cases waitRc with
    | ERROR => exact h.setWorker rfl
    | OK => exact h.takeTask w unlockRc
  | wake w =>
    obtain ⟨-, he⟩ := Option.ite_none_right_eq_some.mp hs
    cases he
    exact h.setWorker rfl
  | call w =>
    obtain ⟨task, i, hpc, rfl⟩ := step_call hs
    exact h.call hpc
  | ret w =>
    obtain ⟨t, i, hpc, rfl⟩ := step_ret hs
    exact h.ret hpc
  | free w =>
    obtain ⟨task, i, hpc, rfl⟩ := step_free hs
    exact h.freeTask hpc
  | exit w =>
    obtain ⟨i, -, rfl⟩ | ⟨-, rfl⟩ := step_exit hs
    · exact h.idle rfl rfl rfl rfl (update_or rfl)
    · exact h.setWorker rfl
  | destroy lockRc signalRc wakes =>
    obtain ⟨-, he⟩ := Option.ite_none_right_eq_some.mp hs
    rcases destroy_cases he with ⟨l, d, rfl⟩ | ⟨d, rfl⟩
    · exact h.idle rfl rfl rfl rfl fun _ => .inl rfl
    · exact (h.post .exit lockRc signalRc wakes).idle rfl rfl rfl rfl fun _ => .inl rfl

/-- Only a task that the pool owns has its handler called or is freed. -/
lemma new_run_owned [Fintype W] {a : Act W T} (hs : step s a = some s') {r : Run W T}
    (hr : r ∈ s'.log.called ∨ r ∈ s'.log.freed) :
    (r ∈ s.log.called ∨ r ∈ s.log.freed) ∨ s.Owned r.task := by
  have hpost : ∀ {task : Task T} {lockRc signalRc : Rc} {wakes : Finset W},
      (s.post task lockRc signalRc wakes).2.log.called = s.log.called ∧
      (s.post task lockRc signalRc wakes).2.log.freed = s.log.freed := by
    intro task lockRc signalRc wakes
    rcases threadTaskPost_cases s task lockRc signalRc wakes with hr | hr | ⟨-, hr⟩ <;>
      rw [State.post, hr] <;> exact ⟨rfl, rfl⟩
  have htake : ∀ {u : State W T} {w : W} {rc : Rc}, (u.takeTask w rc).log.called =
      u.log.called ∧ (u.takeTask w rc).log.freed = u.log.freed := by
    intro u w rc
    rw [State.takeTask]
    split <;> exact ⟨rfl, rfl⟩
  cases a with
  | post t lockRc signalRc wakes =>
    obtain ⟨-, he⟩ := Option.ite_none_right_eq_some.mp hs
    cases he
    rw [hpost.1, hpost.2] at hr
    exact .inl hr
  | enter w lockRc unlockRc =>
    obtain ⟨-, he⟩ := Option.ite_none_right_eq_some.mp hs
    cases he
    cases lockRc with
    | ERROR => exact .inl hr
    | OK =>
      simp only [State.enter] at hr
      rw [htake.1, htake.2] at hr
      exact .inl hr
  | resume w waitRc unlockRc =>
    obtain ⟨-, he⟩ := Option.ite_none_right_eq_some.mp hs
    cases he
    cases waitRc with
    | ERROR => exact .inl hr
    | OK =>
      simp only [State.resume] at hr
      rw [htake.1, htake.2] at hr
      exact .inl hr
  | call w =>
    obtain ⟨task, i, hpc, rfl⟩ := step_call hs
    rcases hr with hr | hr
    · rcases List.mem_cons.mp hr with rfl | hr
      · exact .inr (.inr ⟨w, by rw [hpc]; rfl⟩)
      · exact .inl (.inl hr)
    · exact .inl (.inr hr)
  | free w =>
    obtain ⟨task, i, hpc, rfl⟩ := step_free hs
    rcases hr with hr | hr
    · exact .inl (.inl hr)
    · rcases List.mem_cons.mp hr with rfl | hr
      · exact .inr (.inr ⟨w, by rw [hpc]; rfl⟩)
      · exact .inl (.inr hr)
  | ret w =>
    obtain ⟨t, i, -, rfl⟩ := step_ret hs
    exact .inl hr
  | exit w =>
    obtain ⟨i, -, rfl⟩ | ⟨-, rfl⟩ := step_exit hs <;> exact .inl hr
  | destroy lockRc signalRc wakes =>
    obtain ⟨-, he⟩ := Option.ite_none_right_eq_some.mp hs
    rcases destroy_cases he with ⟨l, d, rfl⟩ | ⟨d, rfl⟩
    · exact .inl hr
    · simp only [hpost.1, hpost.2] at hr
      exact .inl hr
  | _ =>
    obtain ⟨-, he⟩ := Option.ite_none_right_eq_some.mp hs
    cases he
    exact .inl hr

variable [Fintype W] {maxQueue : ℤ}

omit [DecidableEq W] [DecidableEq T] in
lemma owns_start : Owns (start W T maxQueue) := by
  have howned : ∀ task, ¬ (start W T maxQueue).Owned task := by
    rintro task (h | ⟨w, h⟩)
    · cases h
    · cases h
  refine ⟨LinkedQueue.represents_empty _, rfl, List.nodup_nil, ?_, ?_, ?_, ?_, ?_, ?_⟩
  · intro w task h
    cases h
  · intro w w' task h
    cases h
  · exact fun t ht => absurd ht (howned _)
  · intro n h
    cases h
  · exact fun h => absurd h (howned _)
  · exact fun task _ => howned task

omit [DecidableEq W] [DecidableEq T] in
lemma stages_start : Stages (start W T maxQueue) := by
  refine ⟨fun _ => trivial, ?_, List.nodup_nil, List.Subset.refl _, List.nodup_nil,
    List.Subset.refl _, List.nodup_nil⟩
  intro r hr
  cases hr

lemma owns_of_reach {ok : State W T → Act W T → Prop}
    (h : (system W T maxQueue).Reach ok s) : Owns s :=
  h.invariant (fun _ hs => hs ▸ owns_start) fun _ _ _ hs _ hstep => hs.step hstep

lemma stages_of_reach {ok : State W T → Act W T → Prop}
    (h : (system W T maxQueue).Reach ok s) : Stages s :=
  h.invariant (fun _ hs => hs ▸ stages_start) fun _ _ _ hs _ hstep => hs.step hstep

/-- In every run the queue is first in, first out, its pointers are those of a
queue with the accepted tasks not yet dequeued, each acceptance is run and freed
at most once and in this order, and a refused task is neither run nor freed. -/
theorem fifo_once (h : (system W T maxQueue).Reachable s) :
    (s.log.dequeued.map Prod.snd <+: s.log.accepted ∧
      LinkedQueue.Chain s.tp.queue.next s.tp.queue.first
        (s.log.accepted.drop s.log.dequeued.length)) ∧
    (s.tp.queue.last = LinkedQueue.lastLink (s.log.accepted.drop s.log.dequeued.length) ∧
      ∀ t, s.tp.queue.last = .next (.heap t) → t ∈ s.live) ∧
    ((∀ r ∈ s.log.called, s.log.dequeued[r.index]? = some (r.worker, r.task) ∧
        s.log.accepted[r.index]? = some r.task) ∧
      (s.log.called.map Run.index).Nodup) ∧
    (s.log.returned ⊆ s.log.called ∧ s.log.freed ⊆ s.log.returned ∧
      (s.log.freed.map Run.index).Nodup) ∧
    ∀ task, s.log.outcome task = some .ERROR → ¬ s.Owned task ∧
      ∀ a s', step s a = some s' → ∀ r, r.task = task →
        r ∈ s'.log.called ∨ r ∈ s'.log.freed → r ∈ s.log.called ∨ r ∈ s.log.freed := by
  have hown := owns_of_reach h
  have hstages := stages_of_reach h
  have htaken : s.log.dequeued.map Prod.snd <+: s.log.accepted :=
    ⟨s.queued, hown.split.symm⟩
  refine ⟨⟨htaken, hown.queue.chain⟩, ⟨hown.queue.last, ?_⟩,
    ⟨fun r hr => ⟨hstages.called r hr, ?_⟩, hstages.called_once⟩,
    ⟨hstages.returned, hstages.freed, hstages.freed_once⟩, ?_⟩
  · -- the tail points into the last queued task, which the pool owns
    intro t ht
    refine hown.live t (.inl ?_)
    have hlast := hown.queue.last.symm.trans ht
    rcases List.eq_nil_or_concat s.queued with hq | ⟨l, u, hq⟩
    · rw [hq] at hlast
      cases hlast
    · rw [hq, List.concat_eq_append, LinkedQueue.lastLink_append] at hlast
      cases hlast
      rw [hq, List.concat_eq_append]
      exact List.mem_append_right _ (List.mem_singleton_self _)
  · have hd := hstages.called r hr
    have hm : (s.log.dequeued.map Prod.snd)[r.index]? = some r.task := by
      rw [List.getElem?_map, hd]
      rfl
    obtain ⟨hi, -⟩ := List.getElem?_eq_some_iff.mp hm
    rw [hown.split, List.getElem?_append_left hi, hm]
  · intro task herr
    have hnot := hown.refused task herr
    refine ⟨hnot, fun a s' hstep r hr hmem => ?_⟩
    exact (new_run_owned hstep hmem).resolve_right (hr ▸ hnot)

/-- Two workers, two tasks: the second task is taken by the worker that was
busy, and the first one by the worker that the signal woke. -/
def stealRun : List (Act (Fin 2) (Fin 2)) :=
  [.alloc 0, .alloc 1, .enter 0 .OK .OK, .post 0 .OK .OK {0}, .enter 1 .OK .OK,
    .post 1 .OK .OK ∅, .call 1, .resume 0 .OK .OK, .ret 1, .free 1, .call 0]

theorem fifo_once_steal :
    ∃ s, (system (Fin 2) (Fin 2) 8).exec (start (Fin 2) (Fin 2) 8) stealRun = some s ∧
      s.log.dequeued = [(1, .heap 0), (0, .heap 1)] ∧
      s.log.dequeued.map Prod.snd <+: s.log.accepted := by
  have hrun : ((system (Fin 2) (Fin 2) 8).exec (start (Fin 2) (Fin 2) 8) stealRun).map
      (·.log.dequeued) = some [(1, .heap 0), (0, .heap 1)] := by
    decide +kernel
  obtain ⟨s, hs, hdeq⟩ := Option.map_eq_some_iff.mp hrun
  exact ⟨s, hs, hdeq, (fifo_once (System.Reach.exec (.init rfl) (fun _ _ _ => trivial) hs)).1.1⟩

end ShareBike.ThreadPool
