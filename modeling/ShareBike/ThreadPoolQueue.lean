import ShareBike.ThreadPool

/-!
# Tasks are queued, run and freed in order

The linked queue always spells out the accepted tasks that were not dequeued. A
task is owned by the queue or by one worker, never by both, and it stays
allocated while it is owned.
-/
namespace ShareBike.ThreadPool
open ShareBike.Lib

variable {W T : Type} {s s' : State W T}

/-- Who owns the tasks, and how the queue is linked. -/
structure Owns (s : State W T) : Prop where
  queue : s.tp.queue.Represents s.queued
  split : s.log.accepted = s.log.dequeued.map Prod.snd ++ s.queued
  nodup : s.queued.Nodup
  held : ∀ w task, (s.worker w).task = some task → task ∉ s.queued
  single : ∀ w w' task, (s.worker w).task = some task → (s.worker w').task = some task →
    w = w'
  live : ∀ t, s.Owned (.heap t) → t ∈ s.live
  armed : ∀ n, s.destroyer = .post n → s.lock ≠ 0
  exit : s.Owned .exit → (∃ n, s.destroyer = .spin n) ∧ s.lock ≠ 0
  refused : ∀ task, s.log.outcome task = some .ERROR → ¬ s.Owned task

lemma queued_eq (hacc : s'.log.accepted = s.log.accepted)
    (hdeq : s'.log.dequeued = s.log.dequeued) : s'.queued = s.queued := by
  rw [State.queued, hacc, hdeq, State.queued]

lemma owned_mono (hq : s'.queued = s.queued)
    (htask : ∀ w task, (s'.worker w).task = some task → (s.worker w).task = some task)
    {task : Task T} (h : s'.Owned task) : s.Owned task := by
  rcases h with h | ⟨w, h⟩
  · exact .inl (hq ▸ h)
  · exact .inr ⟨w, htask w task h⟩

/-- A step that does not touch the queued tasks, and in which workers at most
let go of theirs. -/
lemma Owns.shrink (h : Owns s) (hq : s'.tp.queue.Represents s.queued)
    (hacc : s'.log.accepted = s.log.accepted) (hdeq : s'.log.dequeued = s.log.dequeued)
    (htask : ∀ w task, (s'.worker w).task = some task → (s.worker w).task = some task)
    (hlive : ∀ t, s'.Owned (.heap t) → t ∈ s.live → t ∈ s'.live)
    (harmed : ∀ n, s'.destroyer = .post n → s'.lock ≠ 0)
    (hexit : s'.Owned .exit → (∃ n, s.destroyer = .spin n) ∧ s.lock ≠ 0 →
      (∃ n, s'.destroyer = .spin n) ∧ s'.lock ≠ 0)
    (hout : ∀ task, s'.log.outcome task = some .ERROR → ¬ s.Owned task) : Owns s' := by
  have hqueued := queued_eq hacc hdeq
  have hmono : ∀ {task : Task T}, s'.Owned task → s.Owned task := owned_mono hqueued htask
  refine ⟨hqueued ▸ hq, ?_, hqueued ▸ h.nodup, ?_, ?_, ?_, harmed, ?_, ?_⟩
  · rw [hqueued, hacc, hdeq]
    exact h.split
  · intro w task hw
    rw [hqueued]
    exact h.held w task (htask w task hw)
  · intro w w' task hw hw'
    exact h.single w w' task (htask w task hw) (htask w' task hw')
  · exact fun t ht => hlive t ht (h.live t (hmono ht))
  · exact fun ho => hexit ho (h.exit (hmono ho))
  · exact fun task ht ho => hout task ht (hmono ho)

lemma Owns.length_le (h : Owns s) : s.log.dequeued.length ≤ s.log.accepted.length := by
  rw [h.split, List.length_append, List.length_map]
  exact Nat.le_add_right _ _

/-- One more task is queued. -/
lemma Owns.length_accept (h : Owns s) (task : Task T) :
    ((s.log.accepted ++ [task]).drop s.log.dequeued.length).length = s.queued.length + 1 := by
  rw [List.drop_append_of_le_length h.length_le, List.length_append]
  rfl

/-- There is a task to take. -/
lemma Owns.queued_pos (h : Owns s) {task : Task T} (hfirst : s.tp.queue.first = some task) :
    0 < s.queued.length := by
  apply List.length_pos_iff.mpr
  intro hnil
  rw [h.queue.first, hnil] at hfirst
  cases hfirst

/-- Workers move, but the tasks that they have stay. -/
lemma Owns.move (h : Owns s) (hq : s'.tp.queue = s.tp.queue) (hlive : s'.live = s.live)
    (hd : s'.destroyer = s.destroyer) (hlock : s'.lock = s.lock)
    (hacc : s'.log.accepted = s.log.accepted) (hdeq : s'.log.dequeued = s.log.dequeued)
    (hout : s'.log.outcome = s.log.outcome)
    (htask : ∀ w task, (s'.worker w).task = some task → (s.worker w).task = some task) :
    Owns s' := by
  refine h.shrink (hq ▸ h.queue) hacc hdeq htask (fun t _ ht => hlive ▸ ht) ?_ ?_ ?_
  · rw [hd, hlock]
    exact h.armed
  · rw [hd, hlock]
    exact fun _ he => he
  · rw [hout]
    exact h.refused

section Worker

variable [DecidableEq W]

lemma update_task {w : W} {pc : Pc T} (hpc : ∀ task, pc.task = some task →
    (s.worker w).task = some task) (v : W) (task : Task T)
    (hv : (Function.update s.worker w pc v).task = some task) :
    (s.worker v).task = some task := by
  by_cases h : v = w
  · subst h
    rw [Function.update_self] at hv
    exact hpc task hv
  · rwa [Function.update_of_ne h] at hv

lemma Owns.setWorker (h : Owns s) {w : W} {pc : Pc T}
    (hpc : ∀ task, pc.task = some task → (s.worker w).task = some task) :
    Owns (s.setWorker w pc) :=
  h.move rfl rfl rfl rfl rfl rfl rfl (update_task hpc)

lemma queued_dequeue (w : W) (task : Task T) (rc : Rc) :
    (s.dequeue w task rc).queued = s.queued.tail := by
  simp only [State.queued, State.dequeue, List.length_append, List.length_singleton,
    List.tail_drop]

/-- The first task leaves the queue; a worker has it, unless its unlock failed. -/
lemma Owns.dequeue (h : Owns s) {w : W} {task : Task T} (hfirst : s.tp.queue.first = some task)
    (rc : Rc) : Owns (s.dequeue w task rc) := by
  obtain ⟨rest, hrest⟩ : ∃ rest, s.queued = task :: rest := by
    rw [h.queue.first] at hfirst
    exact List.head?_eq_some_iff.mp hfirst
  have hqueued : (s.dequeue w task rc).queued = rest := by
    rw [queued_dequeue, hrest, List.tail_cons]
  have hnodup := h.nodup
  rw [hrest, List.nodup_cons] at hnodup
  have hself : ∀ u, ((s.dequeue w task rc).worker w).task = some u → u = task := by
    intro u hu
    simp only [State.dequeue, Function.update_self] at hu
    cases rc with
    | OK => exact (Option.some.inj hu).symm
    | ERROR => simp [Pc.task] at hu
  have hother : ∀ v, v ≠ w → (s.dequeue w task rc).worker v = s.worker v := fun v hv =>
    Function.update_of_ne hv _ _
  have hmono : ∀ u, (s.dequeue w task rc).Owned u → s.Owned u := by
    rintro u (hu | ⟨v, hu⟩)
    · rw [hqueued] at hu
      exact .inl (hrest ▸ List.mem_cons_of_mem _ hu)
    · by_cases hv : v = w
      · rw [hv] at hu
        rw [hself u hu]
        exact .inl (hrest ▸ List.mem_cons_self)
      · rw [hother v hv] at hu
        exact .inr ⟨v, hu⟩
  have hrep := h.queue
  rw [hrest] at hrep
  refine ⟨hqueued ▸ hrep.pop, ?_, hqueued ▸ hnodup.2, ?_, ?_, fun t ht => h.live t (hmono _ ht),
    h.armed, fun ho => h.exit (hmono _ ho), fun u hu ho => h.refused u hu (hmono u ho)⟩
  · have hsplit := h.split
    rw [hrest] at hsplit
    rw [hqueued]
    simpa [State.dequeue] using hsplit
  · intro v u hu
    rw [hqueued]
    by_cases hv : v = w
    · rw [hv] at hu
      rw [hself u hu]
      exact hnodup.1
    · rw [hother v hv] at hu
      have hn := h.held v u hu
      rw [hrest] at hn
      exact fun hm => hn (List.mem_cons_of_mem _ hm)
  · -- the dequeued task was queued, so no other worker has it
    have htask : task ∈ s.queued := hrest ▸ List.mem_cons_self
    intro v v' u hu hu'
    by_cases hv : v = w <;> by_cases hv' : v' = w
    · rw [hv, hv']
    · rw [hv] at hu
      rw [hother v' hv'] at hu'
      exact absurd htask (h.held v' task (hself u hu ▸ hu'))
    · rw [hv'] at hu'
      rw [hother v hv] at hu
      exact absurd htask (h.held v task (hself u hu' ▸ hu))
    · rw [hother v hv] at hu
      rw [hother v' hv'] at hu'
      exact h.single v v' u hu hu'

lemma Owns.takeTask (h : Owns s) (w : W) (rc : Rc) : Owns (s.takeTask w rc) := by
  rw [State.takeTask]
  split
  · exact h.setWorker fun task ht => by simp [Pc.task] at ht
  · exact h.dequeue ‹_› rc

/-- Waking blocked workers moves no task. -/
lemma signal_task {wakes : Finset W} (hw : ∀ w ∈ wakes, s.worker w = .blocked) (w : W) :
    ((s.signal wakes).worker w).task = (s.worker w).task := by
  simp only [State.signal]
  split_ifs with hmem
  · rw [hw w hmem]
    rfl
  · rfl

end Worker

variable [DecidableEq T]

/-- A task that the pool does not own is linked at the end of the queue. -/
lemma Owns.accept (h : Owns s) {task : Task T} (hnot : ¬ s.Owned task)
    (hq : s'.tp.queue = (s.tp.queue.setNext task none).push task)
    (hacc : s'.log.accepted = s.log.accepted ++ [task])
    (hdeq : s'.log.dequeued = s.log.dequeued)
    (htask : ∀ w, (s'.worker w).task = (s.worker w).task) (hlive : s'.live = s.live)
    (hmem : ∀ t, task = .heap t → t ∈ s.live)
    (harmed : ∀ n, s'.destroyer = .post n → s'.lock ≠ 0)
    (hexit : s'.Owned .exit → (∃ n, s'.destroyer = .spin n) ∧ s'.lock ≠ 0)
    (hout : ∀ u, s'.log.outcome u = some .ERROR → u ≠ task ∧ s.log.outcome u = some .ERROR) :
    Owns s' := by
  have hnq : task ∉ s.queued := fun hm => hnot (.inl hm)
  have hqueued : s'.queued = s.queued ++ [task] := by
    rw [State.queued, hacc, hdeq, List.drop_append_of_le_length h.length_le, State.queued]
  have hmono : ∀ u, s'.Owned u → u = task ∨ s.Owned u := by
    rintro u (hu | ⟨w, hu⟩)
    · rw [hqueued, List.mem_append, List.mem_singleton] at hu
      exact hu.symm.imp id .inl
    · exact .inr (.inr ⟨w, htask w ▸ hu⟩)
  refine ⟨?_, ?_, ?_, ?_, ?_, ?_, harmed, hexit, ?_⟩
  · rw [hq, hqueued]
    exact (h.queue.setNext hnq none).push h.nodup hnq (LinkedQueue.setNext_next_self none)
  · rw [hqueued, hacc, hdeq, ← List.append_assoc, ← h.split]
  · rw [hqueued]
    exact h.nodup.append (List.nodup_singleton _) (by simpa using hnq)
  · intro w u hu hm
    rw [htask] at hu
    rw [hqueued, List.mem_append, List.mem_singleton] at hm
    rcases hm with hm | rfl
    · exact h.held w u hu hm
    · exact hnot (.inr ⟨w, hu⟩)
  · intro w w' u hu hu'
    rw [htask] at hu hu'
    exact h.single w w' u hu hu'
  · intro t ht
    rw [hlive]
    rcases hmono _ ht with he | ho
    · exact hmem t he.symm
    · exact h.live t ho
  · intro u hu ho
    obtain ⟨hne, hu'⟩ := hout u hu
    exact h.refused u hu' ((hmono u ho).resolve_left hne)

lemma Owns.stamp (h : Owns s) {task : Task T} (hnot : ¬ s.Owned task) : Owns (s.stamp task) :=
  h.shrink (h.queue.setNext (fun hm => hnot (.inl hm)) none) rfl rfl (fun _ _ => id)
    (fun _ _ => id) h.armed (fun _ => id) h.refused

variable [DecidableEq W]

/-- What a call of `thread_task_post` does, apart from recording its result. -/
lemma threadTaskPost_cases (s : State W T) (task : Task T) (lockRc signalRc : Rc)
    (wakes : Finset W) :
    s.threadTaskPost task lockRc signalRc wakes = (.ERROR, s) ∨
    s.threadTaskPost task lockRc signalRc wakes = (.ERROR, s.stamp task) ∨
    (s.tp.waiting < s.tp.maxQueue ∧ s.threadTaskPost task lockRc signalRc wakes =
      (.OK, ((s.stamp task).signal wakes).enqueue task)) := by
  cases lockRc with
  | ERROR => exact .inl rfl
  | OK =>
    simp only [State.threadTaskPost]
    split_ifs with hfull
    · exact .inl rfl
    · cases signalRc with
      | ERROR => exact .inr (.inl rfl)
      | OK => exact .inr (.inr ⟨not_le.mp hfull, rfl⟩)

/-- A refused post leaves the ownership as it was. -/
lemma Owns.post_error (h : Owns s) {task : Task T} (hnot : ¬ s.Owned task) (lockRc signalRc : Rc)
    (wakes : Finset W) (hrc : (s.post task lockRc signalRc wakes).1 = .ERROR) :
    Owns (s.post task lockRc signalRc wakes).2 := by
  have hout : ∀ u, Function.update s.log.outcome task (some .ERROR) u = some .ERROR →
      ¬ s.Owned u := by
    intro u hu
    by_cases he : u = task
    · exact he ▸ hnot
    · rw [Function.update_of_ne he] at hu
      exact h.refused u hu
  rcases threadTaskPost_cases s task lockRc signalRc wakes with hr | hr | ⟨-, hr⟩
  · simp only [State.post, hr]
    exact h.shrink h.queue rfl rfl (fun _ _ => id) (fun _ _ => id) h.armed (fun _ => id) hout
  · simp only [State.post, hr]
    exact (h.stamp hnot).shrink (h.stamp hnot).queue rfl rfl (fun _ _ => id) (fun _ _ => id)
      h.armed (fun _ => id) hout
  · rw [State.post, hr] at hrc
    cases hrc

/-- An accepted post links the task; its caller may be `thread_pool_destroy`,
which goes on to the place `d`. -/
lemma Owns.post_ok (h : Owns s) {task : Task T} (hnot : ¬ s.Owned task)
    (hmem : ∀ t, task = .heap t → t ∈ s.live) (lockRc signalRc : Rc) {wakes : Finset W}
    (hw : ∀ w ∈ wakes, s.worker w = .blocked) (d : Destroyer)
    (harmed : ∀ n, d = .post n → s.lock ≠ 0)
    (hexit : task = .exit ∨ s.Owned .exit → (∃ n, d = .spin n) ∧ s.lock ≠ 0)
    (hrc : (s.post task lockRc signalRc wakes).1 = .OK) :
    Owns { (s.post task lockRc signalRc wakes).2 with destroyer := d } := by
  rcases threadTaskPost_cases s task lockRc signalRc wakes with hr | hr | ⟨-, hr⟩
  · rw [State.post, hr] at hrc
    cases hrc
  · rw [State.post, hr] at hrc
    cases hrc
  · have htask := fun w => signal_task (s := s.stamp task) hw w
    simp only [State.post, hr]
    refine h.accept hnot rfl rfl rfl htask rfl hmem harmed ?_ ?_
    · rintro (ho | ⟨w, ho⟩)
      · refine hexit ?_
        have hq : ((s.log.accepted ++ [task]).drop s.log.dequeued.length) =
            s.queued ++ [task] := List.drop_append_of_le_length h.length_le
        have ho' : Task.exit ∈ s.queued ++ [task] := hq ▸ ho
        rw [List.mem_append, List.mem_singleton] at ho'
        exact ho'.symm.imp Eq.symm .inl
      · exact hexit (.inr (.inr ⟨w, (htask w).symm.trans ho⟩))
    · intro u hu
      by_cases he : u = task
      · subst he
        simp [State.enqueue] at hu
      · refine ⟨he, ?_⟩
        change Function.update s.log.outcome task (some .OK) u = _ at hu
        rwa [Function.update_of_ne he] at hu

lemma post_destroyer (s : State W T) (task : Task T) (lockRc signalRc : Rc)
    (wakes : Finset W) : (s.post task lockRc signalRc wakes).2.destroyer = s.destroyer := by
  rcases threadTaskPost_cases s task lockRc signalRc wakes with hr | hr | ⟨-, hr⟩ <;>
    simp only [State.post, hr] <;> rfl

omit [DecidableEq T] in
/-- The worker that frees a task is the only owner. -/
lemma Owns.not_owned_of_top (h : Owns s) {w : W} {task : Task T}
    (hw : (s.worker w).task = some task) (pc : Pc T) (hpc : pc.task = none)
    (hq : s'.queued = s.queued) (hworker : s'.worker = Function.update s.worker w pc) :
    ¬ s'.Owned task := by
  rintro (ho | ⟨v, hv⟩)
  · exact h.held w task hw (hq ▸ ho)
  · rw [hworker] at hv
    by_cases hvw : v = w
    · rw [hvw, Function.update_self, hpc] at hv
      cases hv
    · rw [Function.update_of_ne hvw] at hv
      exact hvw (h.single v w task hv hw)

lemma Owns.freeTask (h : Owns s) {w : W} {task : Task T} {i : ℕ}
    (hw : s.worker w = .handled task i) : Owns (s.freeTask w task i) := by
  have htask : (s.worker w).task = some task := by rw [hw]; rfl
  have hgone : ¬ (s.freeTask w task i).Owned task :=
    h.not_owned_of_top htask .top rfl rfl rfl
  refine h.shrink (h.queue.setNext (h.held w task htask) none) rfl rfl
    (update_task fun _ ht => by simp [Pc.task] at ht) ?_ h.armed (fun _ => id) h.refused
  intro t ho ht
  cases task with
  | exit => exact ht
  | heap u =>
    refine Finset.mem_erase.mpr ⟨?_, ht⟩
    rintro rfl
    exact hgone ho

omit [DecidableEq T] in
lemma Owns.unlock (h : Owns s) {w : W} {i : ℕ} (hw : s.worker w = .handling .exit i) :
    Owns (s.unlock w) := by
  have htask : (s.worker w).task = some .exit := by rw [hw]; rfl
  have hgone : ¬ (s.unlock w).Owned .exit :=
    h.not_owned_of_top htask .exiting rfl rfl rfl
  obtain ⟨⟨n, hn⟩, -⟩ := h.exit (.inr ⟨w, htask⟩)
  refine h.shrink h.queue rfl rfl (update_task fun _ ht => by simp [Pc.task] at ht)
    (fun _ _ => id) ?_ (fun ho => absurd ho hgone) h.refused
  intro m hm
  change s.destroyer = _ at hm
  rw [hn] at hm
  cases hm

lemma Owns.destroy (h : Owns s) {lockRc signalRc : Rc} {wakes : Finset W}
    (hw : ∀ w ∈ wakes, s.worker w = .blocked)
    (hs : s.threadPoolDestroy lockRc signalRc wakes = some s') : Owns s' := by
  -- while the destroyer is not spinning, the pool does not own its task
  have hfree : (∀ n, s.destroyer ≠ .spin n) → ¬ s.Owned .exit := by
    intro hne ho
    obtain ⟨⟨n, hn⟩, -⟩ := h.exit ho
    exact hne n hn
  have hmove : ∀ {d : Destroyer} {l : ℕ}, ¬ s.Owned .exit → (∀ n, d = .post n → l ≠ 0) →
      Owns { s with lock := l, destroyer := d } := fun hn ha =>
    h.shrink h.queue rfl rfl (fun _ _ => id) (fun _ _ => id) ha
      (fun ho => absurd ho hn) h.refused
  unfold State.threadPoolDestroy at hs
  cases hd : s.destroyer with
  | idle =>
    rw [hd] at hs
    cases hs
    exact hmove (hfree (by simp [hd])) (by simp)
  | loop n =>
    rw [hd] at hs
    dsimp only at hs
    split_ifs at hs <;> cases hs
    · exact hmove (hfree (by simp [hd])) (by simp)
    · exact hmove (hfree (by simp [hd])) (by simp)
  | post n =>
    have hnot := hfree (by simp [hd])
    rw [hd] at hs
    dsimp only at hs
    rcases hr : s.post .exit lockRc signalRc wakes with ⟨_ | _, r⟩
    · rw [hr] at hs
      cases hs
      have hok := h.post_ok hnot (by simp) lockRc signalRc hw (.spin n)
        (by simp) (fun _ => ⟨⟨n, rfl⟩, h.armed n hd⟩) (by rw [hr])
      rw [hr] at hok
      exact hok
    · rw [hr] at hs
      cases hs
      have herr := h.post_error hnot lockRc signalRc wakes (by rw [hr])
      have hd' := post_destroyer s .exit lockRc signalRc wakes
      rw [hr] at herr hd'
      refine herr.shrink herr.queue rfl rfl (fun _ _ => id) (fun _ _ => id) (by simp) ?_
        herr.refused
      rintro - ⟨⟨m, hm⟩, -⟩
      rw [hd', hd] at hm
      cases hm
  | spin n =>
    rw [hd] at hs
    dsimp only at hs
    split_ifs at hs with hl
    · cases hs
      exact h
    · cases hs
      refine hmove (fun ho => hl ?_) (by simp)
      exact (h.exit ho).2
  | condDestroy =>
    rw [hd] at hs
    cases hs
    exact hmove (hfree (by simp [hd])) (by simp)
  | mutexDestroy =>
    rw [hd] at hs
    cases hs
    exact hmove (hfree (by simp [hd])) (by simp)
  | free =>
    rw [hd] at hs
    cases hs
    exact hmove (hfree (by simp [hd])) (by simp)
  | returned => rw [hd] at hs; cases hs
  | refused => rw [hd] at hs; cases hs

lemma Owns.alloc (h : Owns s) {t : T} (ht : t ∉ s.live) {a : Act W T} [Fintype W]
    (ha : a = .alloc t) (hs : step s a = some s') : Owns s' := by
  subst ha
  simp only [step, ht, not_false_eq_true, if_true, Option.some.injEq] at hs
  subst hs
  have hnot : ¬ s.Owned (.heap t) := fun ho => ht (h.live t ho)
  refine h.shrink (h.queue.setNext (fun hm => hnot (.inl hm)) none) rfl rfl (fun _ _ => id)
    (fun _ _ hu => Finset.mem_insert_of_mem hu) h.armed (fun _ => id) ?_
  intro task hu
  change Function.update s.log.outcome (.heap t) none task = _ at hu
  by_cases he : task = .heap t
  · exact he ▸ hnot
  · rw [Function.update_of_ne he] at hu
    exact h.refused task hu

/-- One step lemma for the ownership, whatever the pthread functions answer. -/
theorem Owns.step [Fintype W] (h : Owns s) {a : Act W T} (hs : step s a = some s') :
    Owns s' := by
  cases a with
  | alloc t =>
    by_cases ht : t ∈ s.live
    · simp [ThreadPool.step, ht] at hs
    · exact h.alloc ht rfl hs
  | release t =>
    obtain ⟨⟨-, hnot⟩, he⟩ := Option.ite_none_right_eq_some.mp hs
    cases he
    refine h.shrink h.queue rfl rfl (fun _ _ => id) ?_ h.armed (fun _ => id) h.refused
    intro u ho hu
    refine Finset.mem_erase.mpr ⟨?_, hu⟩
    rintro rfl
    exact hnot ho
  | post t lockRc signalRc wakes =>
    obtain ⟨⟨ht, hnot, -, hw, -⟩, he⟩ := Option.ite_none_right_eq_some.mp hs
    cases he
    cases hrc : (s.post (.heap t) lockRc signalRc wakes).1 with
    | ERROR => exact h.post_error hnot lockRc signalRc wakes hrc
    | OK =>
      have hok := h.post_ok hnot (fun u hu => by cases hu; exact ht) lockRc signalRc hw
        s.destroyer h.armed (fun ho => h.exit (ho.resolve_left (by simp))) hrc
      rwa [← post_destroyer s (.heap t) lockRc signalRc wakes] at hok
  | enter w lockRc unlockRc =>
    obtain ⟨-, he⟩ := Option.ite_none_right_eq_some.mp hs
    cases he
    cases lockRc with
    | ERROR => exact h.setWorker fun _ ht => by simp [Pc.task] at ht
    | OK =>
      have hdec : Owns s.decWaiting := h.move rfl rfl rfl rfl rfl rfl rfl fun _ _ => id
      exact hdec.takeTask w unlockRc
  | resume w waitRc unlockRc =>
    obtain ⟨-, he⟩ := Option.ite_none_right_eq_some.mp hs
    cases he
    cases waitRc with
    | ERROR => exact h.setWorker fun _ ht => by simp [Pc.task] at ht
    | OK => exact h.takeTask w unlockRc
  | wake w =>
    obtain ⟨-, he⟩ := Option.ite_none_right_eq_some.mp hs
    cases he
    exact h.setWorker fun _ ht => by simp [Pc.task] at ht
  | call w =>
    obtain ⟨task, i, hpc, rfl⟩ := step_call hs
    exact h.move rfl rfl rfl rfl rfl rfl rfl (update_task fun _ ht => hpc ▸ ht)
  | ret w =>
    obtain ⟨t, i, hpc, rfl⟩ := step_ret hs
    exact h.move rfl rfl rfl rfl rfl rfl rfl (update_task fun _ ht => hpc ▸ ht)
  | free w =>
    obtain ⟨task, i, hpc, rfl⟩ := step_free hs
    exact h.freeTask hpc
  | exit w =>
    obtain ⟨i, hpc, rfl⟩ | ⟨-, rfl⟩ := step_exit hs
    · exact h.unlock hpc
    · exact h.setWorker fun _ ht => by simp [Pc.task] at ht
  | destroy lockRc signalRc wakes =>
    obtain ⟨⟨hw, -⟩, he⟩ := Option.ite_none_right_eq_some.mp hs
    exact h.destroy hw he

end ShareBike.ThreadPool
