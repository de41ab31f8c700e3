import ShareBike.Lib.Progress
import ShareBike.ThreadPoolDestroy
import ShareBike.ThreadPoolWakeup
import Mathlib.Algebra.BigOperators.Group.Finset.Basic
import Mathlib.Data.Fintype.BigOperators

/-!
# The workers finish their work

If nobody posts any more, the workers come to an end by themselves, in whatever order they
take their steps: each of them sleeps or has ended, and unless all of them have ended, every
task that was accepted was run and freed.
-/
namespace ShareBike.ThreadPool
open ShareBike.Lib Finset

/-- How many steps a worker can still take without another task. -/
def Pc.rank {T : Type} : Pc T → ℕ
  | .top => 1
  | .blocked => 0
  | .woken => 1
  | .got _ _ => 4
  | .handling _ _ => 3
  | .handled _ _ => 2
  | .exiting => 1
  | .exited => 0
  | .left => 0

variable {W T : Type} [DecidableEq W] [DecidableEq T] [Fintype W] {s s' : State W T}
  {maxQueue : ℤ}

/-- A task costs a worker at most five steps. -/
def State.rank (s : State W T) : ℕ := 5 * s.queued.length + ∑ w, (s.worker w).rank

/-- A step of a worker in which all pthread functions succeed. -/
def Advances : Act W T → Prop
  | .enter _ lockRc unlockRc => lockRc = .OK ∧ unlockRc = .OK
  | .resume _ waitRc unlockRc => waitRc = .OK ∧ unlockRc = .OK
  | .call _ => True
  | .ret _ => True
  | .free _ => True
  | .exit _ => True
  | _ => False

section Rank

omit [DecidableEq T] in
/-- The rank after a step in which one worker moved. -/
lemma rank_update {w : W} {pc : Pc T} (hs : s'.worker = Function.update s.worker w pc) :
    s'.rank + 5 * s.queued.length + (s.worker w).rank =
      s.rank + 5 * s'.queued.length + pc.rank := by
  have hold : (s.worker w).rank + ∑ v ∈ univ.erase w, (s.worker v).rank =
      ∑ v, (s.worker v).rank :=
    Finset.add_sum_erase univ (fun v => (s.worker v).rank) (mem_univ w)
  have hnew : (s'.worker w).rank + ∑ v ∈ univ.erase w, (s'.worker v).rank =
      ∑ v, (s'.worker v).rank :=
    Finset.add_sum_erase univ (fun v => (s'.worker v).rank) (mem_univ w)
  have hrest : ∑ v ∈ univ.erase w, (s'.worker v).rank =
      ∑ v ∈ univ.erase w, (s.worker v).rank := by
    refine Finset.sum_congr rfl fun v hv => ?_
    rw [hs, Function.update_of_ne (ne_of_mem_erase hv)]
  have hself : (s'.worker w).rank = pc.rank := by rw [hs, Function.update_self]
  unfold State.rank
  omega

omit [DecidableEq T] in
/-- A worker goes on with what it has. -/
lemma rank_lt {w : W} {p : Pc T} (hs : s'.worker = Function.update s.worker w p)
    (hq : s'.queued = s.queued) (hp : p.rank < (s.worker w).rank) : s'.rank < s.rank := by
  have h := rank_update hs
  rw [hq] at h
  omega

omit [DecidableEq T] in
/-- A worker that looks for a task falls asleep, or it has a task and the queue is shorter. -/
lemma rank_takeTask (hown : Owns s) {w : W} (hw : (s.worker w).rank = 1) :
    (s.takeTask w .OK).rank < s.rank := by
  unfold State.takeTask
  split
  · refine rank_lt (w := w) (p := .blocked) rfl rfl ?_
    rw [hw]
    exact Nat.one_pos
  · rename_i task hfirst
    have hworker : (s.dequeue w task .OK).worker =
        Function.update s.worker w (.got task s.log.dequeued.length) := rfl
    have h := rank_update hworker
    have hgot : (Pc.got task s.log.dequeued.length).rank = 4 := rfl
    have hpos : 0 < s.queued.length := by
      rw [List.length_pos_iff]
      intro hnil
      have hhead := hown.queue.first
      rw [hnil, hfirst] at hhead
      cases hhead
    rw [queued_dequeue, List.length_tail] at h
    omega

/-- The step lemma: every step of a worker lowers the rank. -/
lemma rank_step (hown : Owns s) {a : Act W T} (ha : Advances a) (hs : step s a = some s') :
    s'.rank < s.rank := by
  cases a with
  | enter w lockRc unlockRc =>
    obtain ⟨hw, he⟩ := Option.ite_none_right_eq_some.mp hs
    obtain ⟨rfl, rfl⟩ := ha
    cases he
    have hown' : Owns s.decWaiting := hown.move rfl rfl rfl rfl rfl rfl rfl fun _ _ => id
    have hrank : (s.decWaiting.worker w).rank = 1 := by
      change (s.worker w).rank = 1
      rw [hw]
      rfl
    exact rank_takeTask hown' hrank
  | resume w waitRc unlockRc =>
    obtain ⟨hw, he⟩ := Option.ite_none_right_eq_some.mp hs
    obtain ⟨rfl, rfl⟩ := ha
    cases he
    have hrank : (s.worker w).rank = 1 := by
      rw [hw]
      rfl
    exact rank_takeTask hown hrank
  | call w =>
    obtain ⟨task, i, hpc, rfl⟩ := step_call hs
    refine rank_lt (w := w) (p := .handling task i) rfl rfl ?_
    rw [hpc]
    exact Nat.lt_succ_self 3
  | ret w =>
    obtain ⟨t, i, hpc, rfl⟩ := step_ret hs
    refine rank_lt (w := w) (p := .handled (.heap t) i) rfl rfl ?_
    rw [hpc]
    exact Nat.lt_succ_self 2
  | free w =>
    obtain ⟨task, i, hpc, rfl⟩ := step_free hs
    refine rank_lt (w := w) (p := .top) rfl rfl ?_
    rw [hpc]
    exact Nat.lt_succ_self 1
  | exit w =>
    obtain ⟨i, hpc, rfl⟩ | ⟨hpc, rfl⟩ := step_exit hs
    · refine rank_lt (w := w) (p := .exiting) rfl rfl ?_
      rw [hpc]
      exact (by decide : 1 < 3)
    · refine rank_lt (w := w) (p := .exited) rfl rfl ?_
      rw [hpc]
      exact Nat.one_pos
  | _ => exact ha.elim

end Rank

section Tidy

/-- A task whose handler returned is freed, or its worker is about to free it. -/
def Tidy (s : State W T) : Prop :=
  ∀ r ∈ s.log.returned, r ∈ s.log.freed ∨ s.worker r.worker = .handled r.task r.index

omit [DecidableEq W] [DecidableEq T] [Fintype W] in
lemma Tidy.frame (h : Tidy s) (hr : s'.log.returned = s.log.returned)
    (hf : s'.log.freed = s.log.freed)
    (hpc : ∀ w task i, s.worker w = .handled task i → s'.worker w = .handled task i) :
    Tidy s' := by
  intro r hmem
  rw [hr] at hmem
  rw [hf]
  exact (h r hmem).imp_right (hpc _ _ _)

omit [DecidableEq T] [Fintype W] in
/-- A worker that is elsewhere moves. -/
lemma Tidy.move (h : Tidy s) (hr : s'.log.returned = s.log.returned)
    (hf : s'.log.freed = s.log.freed) {w : W} {pc : Pc T}
    (hs : s'.worker = Function.update s.worker w pc)
    (hw : ∀ task i, s.worker w ≠ .handled task i) : Tidy s' := by
  refine h.frame hr hf fun v task i hv => ?_
  have hvw : v ≠ w := fun he => hw task i (he ▸ hv)
  rw [hs, Function.update_of_ne hvw]
  exact hv

omit [DecidableEq T] [Fintype W] in
lemma Tidy.takeTask (h : Tidy s) {w : W} (hw : ∀ task i, s.worker w ≠ .handled task i) (rc : Rc) :
    Tidy (s.takeTask w rc) := by
  unfold State.takeTask
  split
  · exact h.move rfl rfl rfl hw
  · exact h.move rfl rfl rfl hw

omit [Fintype W] in
lemma Tidy.post (h : Tidy s) (task : Task T) (lockRc signalRc : Rc) {wakes : Finset W}
    (hw : ∀ w ∈ wakes, s.worker w = .blocked) :
    Tidy (s.post task lockRc signalRc wakes).2 := by
  have hsignal : ∀ w task i, s.worker w = .handled task i →
      (s.signal wakes).worker w = .handled task i := by
    intro w u i hpc
    simp only [State.signal]
    rw [if_neg fun hm => ?_]
    · exact hpc
    · rw [hw w hm] at hpc
      cases hpc
  rcases threadTaskPost_cases s task lockRc signalRc wakes with hr | hr | ⟨-, hr⟩
  · rw [State.post, hr]
    exact h.frame rfl rfl fun _ _ _ => id
  · rw [State.post, hr]
    exact h.frame rfl rfl fun _ _ _ => id
  · rw [State.post, hr]
    exact h.frame rfl rfl hsignal

lemma Tidy.step (h : Tidy s) {a : Act W T} (hs : step s a = some s') : Tidy s' := by
  cases a with
  | alloc t | release t =>
    obtain ⟨-, he⟩ := Option.ite_none_right_eq_some.mp hs
    cases he
    exact h.frame rfl rfl fun _ _ _ => id
  | post t lockRc signalRc wakes =>
    obtain ⟨⟨-, -, -, hw⟩, he⟩ := Option.ite_none_right_eq_some.mp hs
    cases he
    exact h.post _ lockRc signalRc hw.1
  | enter w lockRc unlockRc =>
    obtain ⟨hw, he⟩ := Option.ite_none_right_eq_some.mp hs
    cases he
    have hother : ∀ task i, s.worker w ≠ .handled task i := by simp [hw]
    cases lockRc with
    | ERROR => exact h.move rfl rfl rfl hother
    | OK =>
      have hdec : Tidy s.decWaiting := h.frame rfl rfl fun _ _ _ => id
      exact hdec.takeTask hother unlockRc
  | resume w waitRc unlockRc =>
    obtain ⟨hw, he⟩ := Option.ite_none_right_eq_some.mp hs
    cases he
    have hother : ∀ task i, s.worker w ≠ .handled task i := by simp [hw]
    cases waitRc with
    | ERROR => exact h.move rfl rfl rfl hother
    | OK => exact h.takeTask hother unlockRc
  | wake w =>
    obtain ⟨hw, he⟩ := Option.ite_none_right_eq_some.mp hs
    cases he
    exact h.move rfl rfl rfl (by simp [hw])
  | call w =>
    obtain ⟨task, i, hpc, rfl⟩ := step_call hs
    exact h.move rfl rfl rfl (by simp [hpc])
  | ret w =>
    obtain ⟨t, i, hpc, rfl⟩ := step_ret hs
    intro r hr
    rcases List.mem_cons.mp hr with rfl | hr
    · exact .inr (Function.update_self ..)
    · refine (h r hr).imp_right fun hv => ?_
      have hvw : r.worker ≠ w := by
        intro he
        rw [he, hpc] at hv
        cases hv
      exact (Function.update_of_ne hvw ..).trans hv
  | free w =>
    obtain ⟨task, i, hpc, rfl⟩ := step_free hs
    intro r hr
    rcases h r hr with hfreed | hv
    · exact .inl (List.mem_cons_of_mem _ hfreed)
    · by_cases hvw : r.worker = w
      · rw [hvw, hpc] at hv
        cases hv
        exact .inl (hvw ▸ List.mem_cons_self)
      · exact .inr ((Function.update_of_ne hvw ..).trans hv)
  | exit w =>
    obtain ⟨i, hpc, rfl⟩ | ⟨hpc, rfl⟩ := step_exit hs
    · exact h.move rfl rfl rfl (by simp [hpc])
    · exact h.move rfl rfl rfl (by simp [hpc])
  | destroy lockRc signalRc wakes =>
    obtain ⟨hw, he⟩ := Option.ite_none_right_eq_some.mp hs
    rcases destroy_cases he with ⟨l, d, rfl⟩ | ⟨d, rfl⟩
    · exact h.frame rfl rfl fun _ _ _ => id
    · exact (h.post .exit lockRc signalRc hw.1).frame rfl rfl fun _ _ _ => id

end Tidy

section Drain

/-- What holds in every state of a run in which all pthread functions succeed. -/
structure Sane (s : State W T) : Prop where
  owns : Owns s
  stages : Stages s
  halts : Halts s
  done : Done s
  covered : Covered s
  tidy : Tidy s

lemma Sane.step (h : Sane s) {a : Act W T} (hok : Succeeds a) (hs : step s a = some s') :
    Sane s' := by
  have hwait : WaitSucceeds a := by
    cases a with
    | resume w waitRc unlockRc => exact hok.1
    | _ => trivial
  exact ⟨h.owns.step hs, h.stages.step hs, h.halts.step h.owns hs,
    h.done.step h.halts h.owns h.stages hok hs, h.covered.step h.owns hwait hs, h.tidy.step hs⟩

omit [DecidableEq W] [DecidableEq T] [Fintype W] in
lemma Advances.succeeds {a : Act W T} (h : Advances a) : Succeeds a := by
  cases a with
  | enter w lockRc unlockRc => exact h
  | resume w waitRc unlockRc => exact h
  | call w | ret w | free w | exit w => trivial
  | _ => exact h.elim

lemma accepted_step {a : Act W T} (ha : Advances a) (hs : step s a = some s') :
    s'.log.accepted = s.log.accepted := by
  rcases (step_frame hs).2 with ⟨_, _, _, rfl, -⟩ | ⟨-, -, hsame⟩
  · exact ha.elim
  · refine hsame ?_
    cases a with
    | post t lockRc signalRc wakes => exact ha.elim
    | _ => rfl

/-- The steps of the workers descend. -/
lemma descends (accepted : List (Task T)) : (system W T maxQueue).Descends Advances
    (fun s => Sane s ∧ s.log.accepted = accepted) State.rank := by
  rintro s a s' ⟨hsane, hacc⟩ ha hs
  exact ⟨⟨hsane.step ha.succeeds hs, (accepted_step ha hs).trans hacc⟩,
    rank_step hsane.owns ha hs⟩

/-- A worker that cannot go on sleeps or has ended. -/
lemma Sane.idle (h : Sane s) (hstuck : (system W T maxQueue).Stuck Advances s) (w : W) :
    s.worker w = .blocked ∨ s.worker w = .exited := by
  have hnone : ∀ a : Act W T, Advances a → ThreadPool.step s a = none := hstuck
  cases hw : s.worker w with
  | blocked => exact .inl rfl
  | exited => exact .inr rfl
  | left => exact absurd hw (h.done.stay w)
  | top =>
    have hs := hnone (.enter w .OK .OK) ⟨rfl, rfl⟩
    simp [ThreadPool.step, hw] at hs
  | woken =>
    have hs := hnone (.resume w .OK .OK) ⟨rfl, rfl⟩
    simp [ThreadPool.step, hw] at hs
  | got task i =>
    have hs := hnone (.call w) trivial
    simp [ThreadPool.step, hw] at hs
  | handling task i =>
    cases task with
    | heap t =>
      have hs := hnone (.ret w) trivial
      simp [ThreadPool.step, hw] at hs
    | exit =>
      have hs := hnone (.exit w) trivial
      simp [ThreadPool.step, hw] at hs
  | handled task i =>
    have hs := hnone (.free w) trivial
    simp [ThreadPool.step, hw] at hs
  | exiting =>
    have hs := hnone (.exit w) trivial
    simp [ThreadPool.step, hw] at hs

end Drain

end ShareBike.ThreadPool
