import ShareBike.ThreadPoolRuns

/-!
# What `thread_pool_destroy` can rely on

The destroyer posts its task once for each worker and waits each time until the
handler has cleared the flag. The queue is first in, first out, so when the last
of these posts was answered every earlier task has been dequeued; each answer
came from another worker, and a worker that answered never returns to the loop.
-/
namespace ShareBike.ThreadPool
open ShareBike.Lib

variable {W T : Type} {s s' : State W T}

/-- The worker is in its loop and has nothing to do for an acceptance. -/
def Pc.Quiet : Pc T → Prop
  | .top => True
  | .blocked => True
  | .woken => True
  | .handled _ _ => True
  | _ => False

def Pc.Gone (pc : Pc T) : Prop := pc = .exiting ∨ pc = .exited

/-- How many workers have stopped, while the destroyer is at this place. -/
def Destroyer.Stopped (card lock : ℕ) : Destroyer → ℕ → Prop
  | idle, k => k = 0
  | loop n, k => k = n
  | post n, k => k = n
  | spin n, k => k = if lock = 0 then n + 1 else n
  | refused, _ => True
  | _, k => k = card

section Halts

/-- The workers that have stopped, in every run. -/
structure Halts [Fintype W] (s : State W T) : Prop where
  threads : s.tp.threads = Fintype.card W
  stopped : s.destroyer.Stopped (Fintype.card W) s.lock s.log.exits.length
  nodup : s.log.exits.Nodup
  exits_iff : ∀ w, w ∈ s.log.exits ↔ (s.worker w).Gone

variable [Fintype W]

/-- A step in which no worker stops. -/
lemma Halts.frame (h : Halts s) (ht : s'.tp.threads = s.tp.threads)
    (hd : s'.destroyer = s.destroyer) (hl : s'.lock = s.lock) (he : s'.log.exits = s.log.exits)
    (hpc : ∀ w, (s'.worker w).Gone ↔ (s.worker w).Gone) : Halts s' := by
  refine ⟨ht.trans h.threads, ?_, he ▸ h.nodup, fun w => ?_⟩
  · rw [hd, hl, he]
    exact h.stopped
  · rw [he, hpc]
    exact h.exits_iff w

/-- As many workers as there are have stopped. -/
lemma all_stopped (hnodup : s.log.exits.Nodup) (hk : s.log.exits.length = Fintype.card W)
    (w : W) : w ∈ s.log.exits := by
  classical
  have huniv : s.log.exits.toFinset = Finset.univ := by
    refine Finset.eq_univ_of_card _ ?_
    rw [List.toFinset_card_of_nodup hnodup]
    exact hk
  refine List.mem_toFinset.mp ?_
  rw [huniv]
  exact Finset.mem_univ w

variable [DecidableEq W]

omit [Fintype W] in
lemma gone_update {w : W} {pc : Pc T} (hpc : pc.Gone ↔ (s.worker w).Gone) (v : W) :
    (Function.update s.worker w pc v).Gone ↔ (s.worker v).Gone := by
  by_cases hv : v = w
  · rw [hv, Function.update_self]
    exact hpc
  · rw [Function.update_of_ne hv]

lemma Halts.takeTask (h : Halts s) {w : W} (hw : ¬ (s.worker w).Gone) (rc : Rc) :
    Halts (s.takeTask w rc) := by
  rw [State.takeTask]
  split
  · exact h.frame rfl rfl rfl rfl (gone_update (iff_of_false (by simp [Pc.Gone]) hw))
  · refine h.frame rfl rfl rfl rfl (gone_update (iff_of_false ?_ hw))
    cases rc <;> simp [Pc.Gone]

/-- A worker that clears the flag is the one that the destroyer waits for. -/
lemma Halts.unlock (h : Halts s) (hown : Owns s) {w : W} {i : ℕ}
    (hw : s.worker w = .handling .exit i) : Halts (s.unlock w) := by
  have hnot : w ∉ s.log.exits := by
    rw [h.exits_iff, hw]
    simp [Pc.Gone]
  refine ⟨h.threads, ?_, List.nodup_cons.mpr ⟨hnot, h.nodup⟩, fun v => ?_⟩
  · obtain ⟨⟨n, hd⟩, hlock⟩ := hown.exit (.inr ⟨w, by rw [hw]; rfl⟩)
    have hk := h.stopped
    rw [hd] at hk
    have hk' : s.log.exits.length = if s.lock = 0 then n + 1 else n := hk
    change s.destroyer.Stopped (Fintype.card W) 0 (s.log.exits.length + 1)
    rw [hd, hk', if_neg hlock]
    rfl
  · change v ∈ w :: s.log.exits ↔ (Function.update s.worker w .exiting v).Gone
    by_cases hv : v = w
    · subst hv
      rw [Function.update_self]
      exact iff_of_true List.mem_cons_self (.inl rfl)
    · rw [List.mem_cons, Function.update_of_ne hv, ← h.exits_iff]
      exact or_iff_right hv

variable [DecidableEq T]

lemma Halts.post (h : Halts s) (task : Task T) (lockRc signalRc : Rc) {wakes : Finset W}
    (hw : ∀ w ∈ wakes, s.worker w = .blocked) :
    Halts (s.post task lockRc signalRc wakes).2 := by
  have hsignal : ∀ w, ((s.signal wakes).worker w).Gone ↔ (s.worker w).Gone := by
    intro w
    simp only [State.signal]
    split_ifs with hm
    · rw [hw w hm]
      simp [Pc.Gone]
    · rfl
  rcases threadTaskPost_cases s task lockRc signalRc wakes with hr | hr | ⟨-, hr⟩
  · rw [State.post, hr]
    exact h.frame rfl rfl rfl rfl fun _ => Iff.rfl
  · rw [State.post, hr]
    exact h.frame rfl rfl rfl rfl fun _ => Iff.rfl
  · rw [State.post, hr]
    exact h.frame rfl rfl rfl rfl hsignal

/-- A step of the destroyer keeps the count of the workers that have stopped, also
when one of its posts is refused. -/
lemma stopped_destroy (ht : s.tp.threads = Fintype.card W)
    (hk : s.destroyer.Stopped (Fintype.card W) s.lock s.log.exits.length) (hown : Owns s)
    (hexits : s.log.exits.Nodup) {lockRc signalRc : Rc} {wakes : Finset W}
    (hs : s.threadPoolDestroy lockRc signalRc wakes = some s') :
    s'.destroyer.Stopped (Fintype.card W) s'.lock s'.log.exits.length := by
  unfold State.threadPoolDestroy at hs
  cases hd : s.destroyer with
  | loop n =>
    rw [hd] at hs hk
    dsimp only at hs
    split_ifs at hs with hn <;> cases hs
    · exact hk
    · -- no more workers can have stopped than there are
      have hle : s.log.exits.length ≤ Fintype.card W := hexits.length_le_card
      have hk' : s.log.exits.length = n := hk
      change s.log.exits.length = Fintype.card W
      omega
  | post n =>
    have hlock := hown.armed n hd
    rw [hd] at hs hk
    dsimp only at hs
    rcases threadTaskPost_cases s .exit lockRc signalRc wakes with hr | hr | ⟨-, hr⟩ <;>
      simp only [State.post, hr] at hs <;> cases hs
    · trivial
    · trivial
    · change s.log.exits.length = if s.lock = 0 then n + 1 else n
      rw [if_neg hlock]
      exact hk
  | spin n =>
    rw [hd] at hs hk
    dsimp only at hs
    split_ifs at hs with hlock <;> cases hs
    · rw [hd]
      exact hk
    · change s.log.exits.length = n + 1
      have hk' : s.log.exits.length = if s.lock = 0 then n + 1 else n := hk
      rw [hk', if_pos (not_not.mp hlock)]
  | idle | condDestroy | mutexDestroy | free =>
    rw [hd] at hs hk
    cases hs
    exact hk
  | returned | refused =>
    rw [hd] at hs
    cases hs

lemma Halts.destroy (h : Halts s) (hown : Owns s) {lockRc signalRc : Rc} {wakes : Finset W}
    (hw : ∀ w ∈ wakes, s.worker w = .blocked)
    (hs : s.threadPoolDestroy lockRc signalRc wakes = some s') : Halts s' := by
  have hstopped := stopped_destroy h.threads h.stopped hown h.nodup hs
  rcases destroy_cases hs with ⟨l, d, rfl⟩ | ⟨d, rfl⟩
  · exact ⟨h.threads, hstopped, h.nodup, h.exits_iff⟩
  · have hpost := h.post .exit lockRc signalRc hw
    exact ⟨hpost.threads, hstopped, hpost.nodup, hpost.exits_iff⟩

/-- One step lemma for the count of the stopped workers, whatever the pthread functions
answer and whoever posts. -/
theorem Halts.step (h : Halts s) (hown : Owns s) {a : Act W T} (hs : step s a = some s') :
    Halts s' := by
  cases a with
  | alloc t | release t =>
    obtain ⟨-, he⟩ := Option.ite_none_right_eq_some.mp hs
    cases he
    exact h.frame rfl rfl rfl rfl fun _ => Iff.rfl
  | post t lockRc signalRc wakes =>
    obtain ⟨⟨-, -, -, hw, -⟩, he⟩ := Option.ite_none_right_eq_some.mp hs
    cases he
    exact h.post _ lockRc signalRc hw
  | enter w lockRc unlockRc =>
    obtain ⟨hw, he⟩ := Option.ite_none_right_eq_some.mp hs
    cases he
    have hnot : ¬ (s.worker w).Gone := by simp [hw, Pc.Gone]
    cases lockRc with
    | ERROR => exact h.frame rfl rfl rfl rfl (gone_update (iff_of_false (by simp [Pc.Gone]) hnot))
    | OK =>
      have hdec : Halts s.decWaiting := h.frame rfl rfl rfl rfl fun _ => Iff.rfl
      exact hdec.takeTask hnot unlockRc
  | resume w waitRc unlockRc =>
    obtain ⟨hw, he⟩ := Option.ite_none_right_eq_some.mp hs
    cases he
    have hnot : ¬ (s.worker w).Gone := by simp [hw, Pc.Gone]
    cases waitRc with
    | ERROR => exact h.frame rfl rfl rfl rfl (gone_update (iff_of_false (by simp [Pc.Gone]) hnot))
    | OK => exact h.takeTask hnot unlockRc
  | wake w =>
    obtain ⟨hw, he⟩ := Option.ite_none_right_eq_some.mp hs
    cases he
    exact h.frame rfl rfl rfl rfl (gone_update (by simp [hw, Pc.Gone]))
  | call w =>
    obtain ⟨task, i, hpc, rfl⟩ := step_call hs
    exact h.frame rfl rfl rfl rfl (gone_update (by simp [hpc, Pc.Gone]))
  | ret w =>
    obtain ⟨t, i, hpc, rfl⟩ := step_ret hs
    exact h.frame rfl rfl rfl rfl (gone_update (by simp [hpc, Pc.Gone]))
  | free w =>
    obtain ⟨task, i, hpc, rfl⟩ := step_free hs
    exact h.frame rfl rfl rfl rfl (gone_update (by simp [hpc, Pc.Gone]))
  | exit w =>
    obtain ⟨i, hpc, rfl⟩ | ⟨hpc, rfl⟩ := step_exit hs
    · exact h.unlock hown hpc
    · exact h.frame rfl rfl rfl rfl (gone_update (by simp [hpc, Pc.Gone]))
  | destroy lockRc signalRc wakes =>
    obtain ⟨⟨hw, -⟩, he⟩ := Option.ite_none_right_eq_some.mp hs
    exact h.destroy hown hw he

end Halts

/-- What became of the dequeued tasks, and of the workers. -/
structure Done (s : State W T) : Prop where
  stay : ∀ w, s.worker w ≠ .left
  done : ∀ i w task, s.log.dequeued[i]? = some (w, task) →
    s.worker w = .got task i ∨ s.worker w = .handling task i ∨
      ⟨i, w, task⟩ ∈ s.log.returned ∨ (task = .exit ∧ w ∈ s.log.exits)
  exits_nodup : s.log.exits.Nodup
  exits_iff : ∀ w, w ∈ s.log.exits ↔ (s.worker w).Gone
  user : ∀ r ∈ s.log.returned, r.task ≠ .exit

section Worker

variable [Fintype W]

/-- Workers move between the quiet places, and the log stays. -/
lemma Done.quiet (h : Done s) (hh : Halts s') (hd : s'.log.dequeued = s.log.dequeued)
    (hr : s'.log.returned = s.log.returned) (he : s'.log.exits = s.log.exits)
    (hpc : ∀ w, s'.worker w = s.worker w ∨ (s.worker w).Quiet ∧ (s'.worker w).Quiet) :
    Done s' := by
  refine ⟨fun w hw => ?_, ?_, hh.nodup, hh.exits_iff, hr ▸ h.user⟩
  · rcases hpc w with hp | ⟨-, hp⟩
    · exact h.stay w (hp ▸ hw)
    · rw [hw] at hp
      exact hp
  · intro i w task hi
    rw [hd] at hi
    rw [hr, he]
    rcases hpc w with hp | ⟨hp, -⟩
    · rw [hp]
      exact h.done i w task hi
    · rcases h.done i w task hi with hw | hw | hw
      · rw [hw] at hp
        exact hp.elim
      · rw [hw] at hp
        exact hp.elim
      · exact .inr (.inr hw)

variable [DecidableEq W]

omit [Fintype W] in
lemma update_quiet {w : W} {pc : Pc T} (hw : (s.worker w).Quiet) (hpc : pc.Quiet) (v : W) :
    Function.update s.worker w pc v = s.worker v ∨
      (s.worker v).Quiet ∧ (Function.update s.worker w pc v).Quiet := by
  by_cases h : v = w
  · rw [h, Function.update_self]
    exact .inr ⟨hw, hpc⟩
  · exact .inl (Function.update_of_ne h _ _)

lemma Done.dequeue (h : Done s) {w : W} (hw : (s.worker w).Quiet) {task : Task T}
    (hh : Halts (s.dequeue w task .OK)) : Done (s.dequeue w task .OK) := by
  have hself : (s.dequeue w task .OK).worker w = .got task s.log.dequeued.length :=
    Function.update_self _ _ _
  have hother : ∀ v, v ≠ w → (s.dequeue w task .OK).worker v = s.worker v := fun v hv =>
    Function.update_of_ne hv _ _
  refine ⟨fun v hv => ?_, ?_, hh.nodup, hh.exits_iff, h.user⟩
  · by_cases hvw : v = w
    · rw [hvw, hself] at hv
      cases hv
    · exact h.stay v ((hother v hvw).symm.trans hv)
  · intro i v u hi
    change (s.log.dequeued ++ [(w, task)])[i]? = _ at hi
    rcases Nat.lt_or_ge i s.log.dequeued.length with hlt | hge
    · rw [List.getElem?_append_left hlt] at hi
      by_cases hvw : v = w
      · -- the worker was quiet, so what it dequeued before is finished
        subst hvw
        rcases h.done i v u hi with hd | hd | hd
        · rw [hd] at hw
          exact hw.elim
        · rw [hd] at hw
          exact hw.elim
        · exact .inr (.inr hd)
      · rw [hother v hvw]
        exact h.done i v u hi
    · rw [List.getElem?_append_right hge] at hi
      have hi0 : i - s.log.dequeued.length = 0 := by
        by_contra hne
        obtain ⟨k, hk⟩ := Nat.exists_eq_succ_of_ne_zero hne
        rw [hk] at hi
        cases hi
      rw [hi0] at hi
      cases hi
      have hlen : i = s.log.dequeued.length := by omega
      exact .inl (hlen ▸ hself)

lemma Done.takeTask (h : Done s) {w : W} (hw : (s.worker w).Quiet)
    (hh : Halts (s.takeTask w .OK)) : Done (s.takeTask w .OK) := by
  revert hh
  rw [State.takeTask]
  split
  · exact fun hh => h.quiet hh rfl rfl rfl (update_quiet hw trivial)
  · exact fun hh => h.dequeue hw hh

/-- The end of `pthread_exit`. -/
lemma Done.exited (h : Done s) {w : W} (hw : s.worker w = .exiting)
    (hh : Halts (s.setWorker w .exited)) : Done (s.setWorker w .exited) := by
  have hself : (s.setWorker w .exited).worker w = .exited := Function.update_self _ _ _
  have hother : ∀ v, v ≠ w → (s.setWorker w .exited).worker v = s.worker v := fun v hv =>
    Function.update_of_ne hv _ _
  refine ⟨fun v hv => ?_, fun i v task hi => ?_, hh.nodup, hh.exits_iff, h.user⟩
  · by_cases hvw : v = w
    · rw [hvw, hself] at hv
      cases hv
    · exact h.stay v ((hother v hvw).symm.trans hv)
  · have hold := h.done i v task hi
    by_cases hvw : v = w
    · subst hvw
      rw [hw] at hold
      rcases hold with hp | hp | hp
      · cases hp
      · cases hp
      · exact .inr (.inr hp)
    · rw [hother v hvw]
      exact hold

/-- A worker goes on with its acceptance `i`, or is finished with it. -/
lemma Done.advance (h : Done s) (hh : Halts s') (hst : Stages s) {w : W} {task : Task T} {i : ℕ}
    (hw : s.worker w = .got task i ∨ s.worker w = .handling task i) {pc : Pc T}
    (hs : s'.worker = Function.update s.worker w pc) (hd : s'.log.dequeued = s.log.dequeued)
    (hr : s.log.returned ⊆ s'.log.returned) (hnew : ∀ r ∈ s'.log.returned,
      r ∈ s.log.returned ∨ r.task ≠ .exit)
    (he : s.log.exits ⊆ s'.log.exits) (hleft : pc ≠ .left)
    (hdone : pc = .handling task i ∨ ⟨i, w, task⟩ ∈ s'.log.returned ∨
      (task = .exit ∧ w ∈ s'.log.exits)) : Done s' := by
  have hdeq := hst.dequeued (hw.imp id .inl)
  have hself : s'.worker w = pc := by rw [hs, Function.update_self]
  have hother : ∀ v, v ≠ w → s'.worker v = s.worker v := fun v hv => by
    rw [hs, Function.update_of_ne hv]
  refine ⟨fun v hv => ?_, ?_, hh.nodup, hh.exits_iff, fun r hm => (hnew r hm).elim (h.user r) id⟩
  · by_cases hvw : v = w
    · rw [hvw, hself] at hv
      exact hleft hv
    · exact h.stay v ((hother v hvw).symm.trans hv)
  · intro j v u hj
    rw [hd] at hj
    by_cases hij : j = i
    · subst hij
      rw [hdeq] at hj
      cases hj
      rw [hself]
      exact .inr hdone
    · -- the worker has no other acceptance that it is not finished with
      have hsame : s.worker v = .got u j ∨ s.worker v = .handling u j →
          s'.worker v = s.worker v := by
        intro hp
        refine hother v ?_
        rintro rfl
        rcases hw with hw | hw <;> rw [hw] at hp <;> rcases hp with hp | hp <;> cases hp <;>
          exact hij rfl
      rcases h.done j v u hj with hp | hp | hp | ⟨hp, hx⟩
      · exact .inl ((hsame (.inl hp)).trans hp)
      · exact .inr (.inl ((hsame (.inr hp)).trans hp))
      · exact .inr (.inr (.inl (hr hp)))
      · exact .inr (.inr (.inr ⟨hp, he hx⟩))

end Worker

variable [DecidableEq W] [DecidableEq T]

lemma Done.post [Fintype W] (h : Done s) {task : Task T} {lockRc signalRc : Rc} {wakes : Finset W}
    (hw : ∀ w ∈ wakes, s.worker w = .blocked)
    (hh : Halts (s.post task lockRc signalRc wakes).2) :
    Done (s.post task lockRc signalRc wakes).2 := by
  have hsignal : ∀ w, (s.signal wakes).worker w = s.worker w ∨
      (s.worker w).Quiet ∧ ((s.signal wakes).worker w).Quiet := by
    intro w
    simp only [State.signal]
    split_ifs with hm
    · refine .inr ⟨?_, trivial⟩
      rw [hw w hm]
      trivial
    · exact .inl rfl
  revert hh
  rcases threadTaskPost_cases s task lockRc signalRc wakes with hr | hr | ⟨-, hr⟩
  · rw [State.post, hr]
    exact fun hh => h.quiet hh rfl rfl rfl fun _ => .inl rfl
  · rw [State.post, hr]
    exact fun hh => h.quiet hh rfl rfl rfl fun _ => .inl rfl
  · rw [State.post, hr]
    exact fun hh => h.quiet hh rfl rfl rfl hsignal

/-- All pthread functions succeed in this step. -/
def Succeeds : Act W T → Prop
  | .post _ lockRc signalRc _ => lockRc = .OK ∧ signalRc = .OK
  | .enter _ lockRc unlockRc => lockRc = .OK ∧ unlockRc = .OK
  | .resume _ waitRc unlockRc => waitRc = .OK ∧ unlockRc = .OK
  | .destroy lockRc signalRc _ => lockRc = .OK ∧ signalRc = .OK
  | _ => True

instance : (a : Act W T) → Decidable (Succeeds a)
  | .post _ _ _ _ => inferInstanceAs (Decidable (_ ∧ _))
  | .enter _ _ _ => inferInstanceAs (Decidable (_ ∧ _))
  | .resume _ _ _ => inferInstanceAs (Decidable (_ ∧ _))
  | .destroy _ _ _ => inferInstanceAs (Decidable (_ ∧ _))
  | .alloc _ => isTrue trivial
  | .release _ => isTrue trivial
  | .wake _ => isTrue trivial
  | .call _ => isTrue trivial
  | .ret _ => isTrue trivial
  | .free _ => isTrue trivial
  | .exit _ => isTrue trivial

def Act.isPost : Act W T → Bool
  | .post _ _ _ _ => true
  | _ => false

/-- Besides, nobody posts a task once `thread_pool_destroy` was called. -/
def Alone (s : State W T) (a : Act W T) : Prop :=
  Succeeds a ∧ (a.isPost = true → s.destroyer = .idle)

instance (s : State W T) (a : Act W T) : Decidable (Alone s a) :=
  inferInstanceAs (Decidable (_ ∧ _))

lemma Done.step [Fintype W] (h : Done s) (hh : Halts s) (hown : Owns s) (hst : Stages s)
    {a : Act W T} (hok : Succeeds a) (hs : step s a = some s') : Done s' := by
  have hh' := hh.step hown hs
  cases a with
  | alloc t | release t =>
    obtain ⟨-, he⟩ := Option.ite_none_right_eq_some.mp hs
    cases he
    exact h.quiet hh' rfl rfl rfl fun _ => .inl rfl
  | post t lockRc signalRc wakes =>
    obtain ⟨⟨-, -, -, hw, -⟩, he⟩ := Option.ite_none_right_eq_some.mp hs
    cases he
    exact h.post hw hh'
  | enter w lockRc unlockRc =>
    obtain ⟨hw, he⟩ := Option.ite_none_right_eq_some.mp hs
    obtain ⟨rfl, rfl⟩ := hok
    cases he
    have hdec : Done s.decWaiting := ⟨h.stay, h.done, h.exits_nodup, h.exits_iff, h.user⟩
    have hquiet : (s.worker w).Quiet := by
      rw [hw]
      trivial
    exact hdec.takeTask hquiet hh'
  | resume w waitRc unlockRc =>
    obtain ⟨hw, he⟩ := Option.ite_none_right_eq_some.mp hs
    obtain ⟨rfl, rfl⟩ := hok
    cases he
    refine h.takeTask ?_ hh'
    rw [hw]
    trivial
  | wake w =>
    obtain ⟨hw, he⟩ := Option.ite_none_right_eq_some.mp hs
    cases he
    refine h.quiet hh' rfl rfl rfl (update_quiet ?_ trivial)
    rw [hw]
    trivial
  | call w =>
    obtain ⟨task, i, hpc, rfl⟩ := step_call hs
    exact h.advance hh' hst (.inl hpc) rfl rfl (List.Subset.refl _) (fun _ hr => .inl hr)
      (List.Subset.refl _) (by simp) (.inl rfl)
  | ret w =>
    obtain ⟨t, i, hpc, rfl⟩ := step_ret hs
    refine h.advance hh' hst (.inr hpc) rfl rfl (List.subset_cons_self _ _) ?_
      (List.Subset.refl _) (by simp) (.inr (.inl List.mem_cons_self))
    intro r hr
    rcases List.mem_cons.mp hr with rfl | hr
    · exact .inr (by simp)
    · exact .inl hr
  | free w =>
    obtain ⟨task, i, hpc, rfl⟩ := step_free hs
    refine h.quiet hh' rfl rfl rfl (update_quiet ?_ trivial)
    rw [hpc]
    trivial
  | exit w =>
    obtain ⟨i, hpc, rfl⟩ | ⟨hpc, rfl⟩ := step_exit hs
    · exact h.advance hh' hst (.inr hpc) rfl rfl (List.Subset.refl _) (fun _ hr => .inl hr)
        (List.subset_cons_self _ _) (by simp) (.inr (.inr ⟨rfl, List.mem_cons_self⟩))
    · exact h.exited hpc hh'
  | destroy lockRc signalRc wakes =>
    obtain ⟨⟨hw, -⟩, he⟩ := Option.ite_none_right_eq_some.mp hs
    rcases destroy_cases he with ⟨l, d, rfl⟩ | ⟨d, rfl⟩
    · exact h.quiet hh' rfl rfl rfl fun _ => .inl rfl
    · have hpost := hh.post .exit lockRc signalRc hw
      exact (h.post hw hpost).quiet hh' rfl rfl rfl fun _ => .inl rfl

/-- The destroyer's task was the last one accepted. -/
def Destroyer.Posted (card : ℕ) : Destroyer → Prop
  | idle => False
  | loop n => n ≠ 0
  | post n => n ≠ 0
  | spin _ => True
  | refused => False
  | _ => card ≠ 0

structure Counts [Fintype W] (s : State W T) : Prop where
  threads : s.tp.threads = Fintype.card W
  stopped : s.destroyer.Stopped (Fintype.card W) s.lock s.log.exits.length
  last : s.destroyer.Posted (Fintype.card W) → s.log.accepted.getLast? = some .exit

variable [Fintype W]

/-- After the destroyer's first post, its task stays the last one accepted. -/
lemma last_destroy (h : Counts s) {lockRc signalRc : Rc} {wakes : Finset W}
    (hs : s.threadPoolDestroy lockRc signalRc wakes = some s')
    (hp : s'.destroyer.Posted (Fintype.card W)) : s'.log.accepted.getLast? = some .exit := by
  obtain ⟨ht, hk, hl⟩ := h
  unfold State.threadPoolDestroy at hs
  cases hd : s.destroyer with
  | idle =>
    rw [hd] at hs
    cases hs
    exact absurd rfl hp
  | loop n =>
    rw [hd] at hs hl
    dsimp only at hs
    split_ifs at hs with hn <;> cases hs
    · exact hl hp
    · refine hl ?_
      change n ≠ 0
      change Fintype.card W ≠ 0 at hp
      omega
  | post n =>
    rw [hd] at hs
    dsimp only at hs
    rcases threadTaskPost_cases s .exit lockRc signalRc wakes with hr | hr | ⟨-, hr⟩ <;>
      simp only [State.post, hr] at hs <;> cases hs
    · exact hp.elim
    · exact hp.elim
    · exact List.getLast?_concat
  | spin n =>
    rw [hd] at hs hl
    dsimp only at hs
    split_ifs at hs <;> cases hs <;> exact hl trivial
  | condDestroy | mutexDestroy | free =>
    rw [hd] at hs hl
    cases hs
    exact hl hp
  | returned | refused =>
    rw [hd] at hs
    cases hs

/-- No step changes the sizes of the pool, only `thread_pool_destroy` itself moves on, and
nothing is accepted without a post. -/
lemma step_frame {a : Act W T} (hs : step s a = some s') :
    (s'.tp.threads = s.tp.threads ∧ s'.tp.maxQueue = s.tp.maxQueue) ∧
    ((∃ lockRc signalRc wakes, a = .destroy lockRc signalRc wakes ∧
        s.threadPoolDestroy lockRc signalRc wakes = some s') ∨
      (∀ lockRc signalRc wakes, a ≠ .destroy lockRc signalRc wakes) ∧
        s'.destroyer = s.destroyer ∧ (a.isPost = false → s'.log.accepted = s.log.accepted)) := by
  have htake : ∀ {u : State W T} (w : W) (rc : Rc),
      ((u.takeTask w rc).tp.threads = u.tp.threads ∧
        (u.takeTask w rc).tp.maxQueue = u.tp.maxQueue) ∧
      (u.takeTask w rc).destroyer = u.destroyer ∧
      (u.takeTask w rc).log.accepted = u.log.accepted := by
    intro u w rc
    rw [State.takeTask]
    split <;> exact ⟨⟨rfl, rfl⟩, rfl, rfl⟩
  have hpost : ∀ (task : Task T) (lockRc signalRc : Rc) (wakes : Finset W),
      (s.post task lockRc signalRc wakes).2.tp.threads = s.tp.threads ∧
      (s.post task lockRc signalRc wakes).2.tp.maxQueue = s.tp.maxQueue := by
    intro task lockRc signalRc wakes
    rcases threadTaskPost_cases s task lockRc signalRc wakes with hr | hr | ⟨-, hr⟩ <;>
      rw [State.post, hr] <;> exact ⟨rfl, rfl⟩
  cases a with
  | alloc t | release t | wake w =>
    obtain ⟨-, he⟩ := Option.ite_none_right_eq_some.mp hs
    cases he
    exact ⟨⟨rfl, rfl⟩, .inr ⟨by simp, rfl, fun _ => rfl⟩⟩
  | post t lockRc signalRc wakes =>
    obtain ⟨-, he⟩ := Option.ite_none_right_eq_some.mp hs
    cases he
    exact ⟨hpost _ lockRc signalRc wakes,
      .inr ⟨by simp, post_destroyer _ _ _ _ _, by simp [Act.isPost]⟩⟩
  | enter w lockRc unlockRc =>
    obtain ⟨-, he⟩ := Option.ite_none_right_eq_some.mp hs
    cases he
    cases lockRc with
    | ERROR => exact ⟨⟨rfl, rfl⟩, .inr ⟨by simp, rfl, fun _ => rfl⟩⟩
    | OK =>
      obtain ⟨hsizes, hd, hacc⟩ := htake (u := s.decWaiting) w unlockRc
      exact ⟨hsizes, .inr ⟨by simp, hd, fun _ => hacc⟩⟩
  | resume w waitRc unlockRc =>
    obtain ⟨-, he⟩ := Option.ite_none_right_eq_some.mp hs
    cases he
    cases waitRc with
    | ERROR => exact ⟨⟨rfl, rfl⟩, .inr ⟨by simp, rfl, fun _ => rfl⟩⟩
    | OK =>
      obtain ⟨hsizes, hd, hacc⟩ := htake (u := s) w unlockRc
      exact ⟨hsizes, .inr ⟨by simp, hd, fun _ => hacc⟩⟩
  | call w =>
    obtain ⟨task, i, -, rfl⟩ := step_call hs
    exact ⟨⟨rfl, rfl⟩, .inr ⟨by simp, rfl, fun _ => rfl⟩⟩
  | ret w =>
    obtain ⟨t, i, -, rfl⟩ := step_ret hs
    exact ⟨⟨rfl, rfl⟩, .inr ⟨by simp, rfl, fun _ => rfl⟩⟩
  | free w =>
    obtain ⟨task, i, -, rfl⟩ := step_free hs
    exact ⟨⟨rfl, rfl⟩, .inr ⟨by simp, rfl, fun _ => rfl⟩⟩
  | exit w =>
    obtain ⟨i, -, rfl⟩ | ⟨-, rfl⟩ := step_exit hs <;>
      exact ⟨⟨rfl, rfl⟩, .inr ⟨by simp, rfl, fun _ => rfl⟩⟩
  | destroy lockRc signalRc wakes =>
    obtain ⟨-, he⟩ := Option.ite_none_right_eq_some.mp hs
    refine ⟨?_, .inl ⟨lockRc, signalRc, wakes, rfl, he⟩⟩
    rcases destroy_cases he with ⟨l, d, rfl⟩ | ⟨d, rfl⟩
    · exact ⟨rfl, rfl⟩
    · exact hpost .exit lockRc signalRc wakes

lemma Counts.step (h : Counts s) (hh : Halts s') {a : Act W T} (hok : Alone s a)
    (hs : step s a = some s') : Counts s' := by
  refine ⟨hh.threads, hh.stopped, ?_⟩
  obtain ⟨-, ⟨lockRc, signalRc, wakes, rfl, hd⟩ | ⟨-, hd, hacc⟩⟩ := step_frame hs
  · exact last_destroy h hd
  · rw [hd]
    intro hp
    have hpost : a.isPost = false := by
      rw [Bool.eq_false_iff]
      intro hpost
      rw [hok.2 hpost] at hp
      exact hp
    rw [hacc hpost]
    exact h.last hp

/-- The worker that a step is about. -/
def Act.worker : Act W T → Option W
  | .enter w _ _ => some w
  | .resume w _ _ => some w
  | .wake w => some w
  | .call w => some w
  | .ret w => some w
  | .free w => some w
  | .exit w => some w
  | _ => none

/-- All that a worker which has stopped can still do is to end. -/
lemma gone_worker_step {w : W} (hw : (s.worker w).Gone) {a : Act W T} (ha : a.worker = some w)
    (hs : step s a = some s') : s' = s.setWorker w .exited := by
  cases a with
  | alloc t => cases ha
  | release t => cases ha
  | post t lockRc signalRc wakes => cases ha
  | destroy lockRc signalRc wakes => cases ha
  | _ =>
    cases ha
    rcases hw with hw | hw <;> simp [ThreadPool.step, hw] at hs
    try exact hs.symm

/-- Once all workers have stopped, each step leaves a worker as it is, or ends it. -/
lemma gone_step_cases (h : ∀ w, (s.worker w).Gone) {a : Act W T} (hs : step s a = some s')
    (w : W) : s'.worker w = s.worker w ∨ s'.worker w = .exited := by
  have hpost : ∀ (task : Task T) (lockRc signalRc : Rc) (wakes : Finset W),
      s.Wakes wakes → (s.post task lockRc signalRc wakes).2.worker w = s.worker w := by
    intro task lockRc signalRc wakes hw
    have hnot : w ∉ wakes := by
      intro hm
      rcases h w with hg | hg <;> rw [hw.1 w hm] at hg <;> cases hg
    rcases threadTaskPost_cases s task lockRc signalRc wakes with hr | hr | ⟨-, hr⟩
    · rw [State.post, hr]
    · rw [State.post, hr]
      rfl
    · rw [State.post, hr]
      exact if_neg hnot
  rcases hv : a.worker with _ | v
  · cases a with
    | alloc t | release t =>
      obtain ⟨-, he⟩ := Option.ite_none_right_eq_some.mp hs
      cases he
      exact .inl rfl
    | post t lockRc signalRc wakes =>
      obtain ⟨⟨-, -, -, hw⟩, he⟩ := Option.ite_none_right_eq_some.mp hs
      cases he
      exact .inl (hpost _ lockRc signalRc wakes hw)
    | destroy lockRc signalRc wakes =>
      obtain ⟨hw, he⟩ := Option.ite_none_right_eq_some.mp hs
      rcases destroy_cases he with ⟨l, d, rfl⟩ | ⟨d, rfl⟩
      · exact .inl rfl
      · exact .inl (hpost .exit lockRc signalRc wakes hw)
    | _ => cases hv
  · rw [gone_worker_step (h v) hv hs]
    by_cases hwv : w = v
    · rw [hwv]
      exact .inr (Function.update_self _ _ _)
    · exact .inl (Function.update_of_ne hwv _ _)

lemma gone_step (h : ∀ w, (s.worker w).Gone) {a : Act W T} (hs : step s a = some s') (w : W) :
    (s'.worker w).Gone := by
  rcases gone_step_cases h hs w with he | he
  · rw [he]
    exact h w
  · exact .inr he

omit [DecidableEq W] [DecidableEq T] [Fintype W] in
lemma count_index_eq_one {l : List (Run W T)} (hnodup : (l.map Run.index).Nodup) {r : Run W T}
    (hr : r ∈ l) : (l.map Run.index).count r.index = 1 :=
  List.count_eq_one_of_mem hnodup (List.mem_map_of_mem hr)

variable {maxQueue : ℤ}

omit [DecidableEq W] [DecidableEq T] in
lemma halts_start : Halts (start W T maxQueue) := by
  refine ⟨rfl, rfl, List.nodup_nil, fun w => iff_of_false (by simp [start]) ?_⟩
  rintro (hp | hp) <;> cases hp

lemma halts_of_reach {ok : State W T → Act W T → Prop}
    (h : (system W T maxQueue).Reach ok s) : Halts s :=
  h.invariant_under (J := Owns) (fun _ hr => owns_of_reach hr) (fun _ hs => hs ▸ halts_start)
    fun _ _ _ hown hh _ hs => hh.step hown hs

lemma done_of_reach (h : (system W T maxQueue).Reach Alone s) : Done s ∧ Counts s := by
  refine h.invariant_under (J := fun s => Owns s ∧ Stages s ∧ Halts s)
    (I := fun s => Done s ∧ Counts s)
    (fun _ hr => ⟨owns_of_reach hr, stages_of_reach hr, halts_of_reach hr⟩) ?_ ?_
  · rintro s rfl
    have hh : Halts (start W T maxQueue) := halts_start
    refine ⟨⟨fun w => by simp [start], ?_, hh.nodup, hh.exits_iff, ?_⟩, hh.threads, hh.stopped,
      fun hp => hp.elim⟩
    · intro i w task hi
      cases hi
    · intro r hr
      cases hr
  · rintro s a s' ⟨hown, hst, hh⟩ ⟨hdone, hcounts⟩ hok hs
    exact ⟨hdone.step hh hown hst hok.1 hs, hcounts.step (hh.step hown hs) hok hs⟩

/-- When `thread_pool_destroy` reaches `thread_cond_destroy`, each task accepted
before was run to its end once, each worker has run `thread_pool_exit_handler`
once, the exit task was never freed, and from then on a worker can do nothing
but end. -/
theorem destroy_drained [Nonempty W] (h : (system W T maxQueue).Reach Alone s)
    (hd : s.destroyer = .condDestroy) :
    (∀ i t, s.log.accepted[i]? = some (.heap t) →
      (s.log.called.map Run.index).count i = 1 ∧
      (s.log.returned.map Run.index).count i = 1) ∧
    (∀ w, s.log.exits.count w = 1) ∧
    (∀ r ∈ s.log.freed, r.task ≠ .exit) ∧
    ∀ as s', (system W T maxQueue).exec s as = some s' →
      ∀ w a s'', a.worker = some w → step s' a = some s'' → s'' = s'.setWorker w .exited := by
  have hown := owns_of_reach h
  have hst := stages_of_reach h
  obtain ⟨hdone, ht, hk, hl⟩ := done_of_reach h
  rw [hd] at hk hl
  have hall : ∀ w, w ∈ s.log.exits := all_stopped hdone.exits_nodup hk
  have hgone : ∀ w, (s.worker w).Gone := fun w => (hdone.exits_iff w).mp (hall w)
  have hempty : s.queued = [] := by
    -- the last task accepted is the exit task, and it is not queued any more
    have hlast := hl Fintype.card_ne_zero
    have hnot : Task.exit ∉ s.queued := by
      intro hm
      obtain ⟨⟨n, hn⟩, -⟩ := hown.exit (.inl hm)
      rw [hd] at hn
      cases hn
    rcases List.eq_nil_or_concat s.queued with hq | ⟨l, u, hq⟩
    · exact hq
    · rw [hown.split, hq, List.concat_eq_append, ← List.append_assoc,
        List.getLast?_concat] at hlast
      cases hlast
      rw [hq, List.concat_eq_append] at hnot
      exact absurd (List.mem_append_right _ (List.mem_singleton_self _)) hnot
  refine ⟨fun i t hi => ?_, fun w => List.count_eq_one_of_mem hdone.exits_nodup (hall w),
    fun r hr => hdone.user r (hst.freed hr), ?_⟩
  · rw [hown.split, hempty, List.append_nil, List.getElem?_map, Option.map_eq_some_iff] at hi
    obtain ⟨⟨w, task⟩, hi, rfl⟩ := hi
    have hret : ⟨i, w, .heap t⟩ ∈ s.log.returned := by
      rcases hdone.done i w _ hi with hp | hp | hp | ⟨hp, -⟩
      · rcases hgone w with hg | hg <;> rw [hp] at hg <;> cases hg
      · rcases hgone w with hg | hg <;> rw [hp] at hg <;> cases hg
      · exact hp
      · cases hp
    exact ⟨count_index_eq_one hst.called_once (hst.returned hret),
      count_index_eq_one hst.returned_once hret⟩
  · intro as s' hexec w a s'' ha hstep
    have hgone' : ∀ w, (s'.worker w).Gone :=
      System.exec_invariant (I := fun u : State W T => ∀ w, (u.worker w).Gone)
        (fun _ _ _ hu hstep => gone_step hu hstep) hgone hexec
    exact gone_worker_step (hgone' w) ha hstep

/-- One worker, which is busy with a task while the pool is destroyed. -/
def destroyRun : List (Act (Fin 1) (Fin 1)) :=
  [.alloc 0, .enter 0 .OK .OK, .post 0 .OK .OK {0}, .resume 0 .OK .OK, .destroy .OK .OK ∅,
    .destroy .OK .OK ∅, .destroy .OK .OK ∅, .destroy .OK .OK ∅, .call 0, .ret 0, .free 0,
    .enter 0 .OK .OK, .call 0, .exit 0, .destroy .OK .OK ∅, .destroy .OK .OK ∅]

theorem destroy_drained_busy :
    ∃ s, (system (Fin 1) (Fin 1) 8).exec (start (Fin 1) (Fin 1) 8) destroyRun = some s ∧
      s.destroyer = .condDestroy ∧ s.log.accepted = [.heap 0, .exit] ∧
      ∀ w, s.log.exits.count w = 1 := by
  have hrun : (((system (Fin 1) (Fin 1) 8).guard Alone).exec (start (Fin 1) (Fin 1) 8)
      destroyRun).map (fun s => (s.destroyer, s.log.accepted)) =
      some (.condDestroy, [.heap 0, .exit]) := by
    decide +kernel
  obtain ⟨s, hs, he⟩ := Option.map_eq_some_iff.mp hrun
  simp only [Prod.mk.injEq] at he
  have hreach : (system (Fin 1) (Fin 1) 8).Reach Alone s :=
    System.Reach.exec_guard (.init rfl) hs
  exact ⟨s, System.exec_of_guard hs, he.1, he.2, (destroy_drained hreach he.1).2.1⟩

end ShareBike.ThreadPool
