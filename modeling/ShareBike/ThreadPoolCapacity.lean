import ShareBike.ThreadPoolWaiting

/-!
# The length of the queue

`max_queue` is meant as the most tasks that the queue can hold, but a post compares
it with `waiting`. While workers that were woken have not yet run, `waiting` is below
the length of the queue, and tasks beyond `max_queue` are accepted.
-/
namespace ShareBike.ThreadPool
open ShareBike.Lib

variable {W T : Type} [DecidableEq W] [DecidableEq T] {s s' : State W T}

/-- The step calls `thread_task_post`, and the pthread functions succeed. -/
def Posts (s : State W T) : Act W T → Prop
  | .post _ lockRc signalRc _ => lockRc = .OK ∧ signalRc = .OK
  | .destroy lockRc signalRc _ => (∃ n, s.destroyer = .post n) ∧ lockRc = .OK ∧ signalRc = .OK
  | _ => False

/-- How a step changes the queue and `waiting`. -/
structure Shrinks (s s' : State W T) : Prop where
  queued : s'.queued.length ≤ s.queued.length
  waiting : s'.tp.waiting ≤ s.tp.waiting
  maxQueue : s'.tp.maxQueue = s.tp.maxQueue

structure Grows (s s' : State W T) : Prop where
  below : s.tp.waiting < s.tp.maxQueue
  queued : s'.queued.length = s.queued.length + 1
  waiting : s'.tp.waiting = s.tp.waiting + 1
  maxQueue : s'.tp.maxQueue = s.tp.maxQueue

omit [DecidableEq W] [DecidableEq T] in
lemma Shrinks.of_eq (hq : s'.queued = s.queued) (htp : s'.tp.waiting = s.tp.waiting)
    (hm : s'.tp.maxQueue = s.tp.maxQueue) : Shrinks s s' :=
  ⟨by rw [hq], htp.le, hm⟩

lemma post_grows (hown : Owns s) (task : Task T) (wakes : Finset W)
    (hbelow : s.tp.waiting < s.tp.maxQueue) : Grows s (s.post task .OK .OK wakes).2 := by
  have hr : s.threadTaskPost task .OK .OK wakes =
      (.OK, ((s.stamp task).signal wakes).enqueue task) := by
    simp only [State.threadTaskPost]
    rw [if_neg (by omega)]
  rw [State.post, hr]
  exact ⟨hbelow, hown.length_accept task, rfl, rfl⟩

lemma post_shrinks (task : Task T) {lockRc signalRc : Rc} (wakes : Finset W)
    (hnot : ¬ (lockRc = .OK ∧ signalRc = .OK ∧ s.tp.waiting < s.tp.maxQueue)) :
    Shrinks s (s.post task lockRc signalRc wakes).2 := by
  rw [State.post]
  cases lockRc with
  | ERROR => exact .of_eq rfl rfl rfl
  | OK =>
    simp only [State.threadTaskPost]
    split_ifs with hfull
    · exact .of_eq rfl rfl rfl
    · cases signalRc with
      | ERROR => exact .of_eq rfl rfl rfl
      | OK => exact absurd ⟨rfl, rfl, by omega⟩ hnot

omit [DecidableEq T] in
lemma takeTask_shrinks (w : W) (rc : Rc) : Shrinks s (s.takeTask w rc) := by
  rw [State.takeTask]
  split
  · exact .of_eq rfl rfl rfl
  · refine ⟨?_, le_rfl, rfl⟩
    rw [queued_dequeue, List.length_tail]
    exact Nat.sub_le _ _

lemma destroy_grows (hown : Owns s) {lockRc signalRc : Rc} {wakes : Finset W}
    (hp : (∃ n, s.destroyer = .post n) ∧ lockRc = .OK ∧ signalRc = .OK)
    (hbelow : s.tp.waiting < s.tp.maxQueue)
    (hs : s.threadPoolDestroy lockRc signalRc wakes = some s') : Grows s s' := by
  obtain ⟨⟨n, hn⟩, rfl, rfl⟩ := hp
  have hg := post_grows hown .exit wakes hbelow
  unfold State.threadPoolDestroy at hs
  rw [hn] at hs
  dsimp only at hs
  rcases hr : s.post .exit .OK .OK wakes with ⟨_ | _, r⟩ <;>
    · rw [hr] at hs hg
      cases hs
      exact ⟨hg.below, hg.queued, hg.waiting, hg.maxQueue⟩

lemma destroy_shrinks {lockRc signalRc : Rc} {wakes : Finset W}
    (hp : ¬ (((∃ n, s.destroyer = .post n) ∧ lockRc = .OK ∧ signalRc = .OK) ∧
      s.tp.waiting < s.tp.maxQueue))
    (hs : s.threadPoolDestroy lockRc signalRc wakes = some s') : Shrinks s s' := by
  unfold State.threadPoolDestroy at hs
  split at hs
  · cases hs
    exact .of_eq rfl rfl rfl
  · split_ifs at hs <;> cases hs <;> exact .of_eq rfl rfl rfl
  · rename_i n hn
    have hsh := post_shrinks (s := s) .exit wakes
      (fun h => hp ⟨⟨⟨n, hn⟩, h.1, h.2.1⟩, h.2.2⟩)
    rcases hr : s.post .exit lockRc signalRc wakes with ⟨_ | _, r⟩ <;>
      · rw [hr] at hs hsh
        cases hs
        exact ⟨hsh.queued, hsh.waiting, hsh.maxQueue⟩
  · split_ifs at hs <;> cases hs <;> exact .of_eq rfl rfl rfl
  · cases hs
    exact .of_eq rfl rfl rfl
  · cases hs
    exact .of_eq rfl rfl rfl
  · cases hs
    exact .of_eq rfl rfl rfl
  · cases hs
  · cases hs

variable [Fintype W]

/-- The queue grows in a step exactly if `thread_task_post` finds `waiting` below
`max_queue`. -/
lemma step_grows (hown : Owns s) {a : Act W T} (hs : step s a = some s') (hp : Posts s a)
    (hbelow : s.tp.waiting < s.tp.maxQueue) : Grows s s' := by
  cases a with
  | post t lockRc signalRc wakes =>
    obtain ⟨-, he⟩ := Option.ite_none_right_eq_some.mp hs
    cases he
    obtain ⟨rfl, rfl⟩ := hp
    exact post_grows hown _ wakes hbelow
  | destroy lockRc signalRc wakes =>
    obtain ⟨-, he⟩ := Option.ite_none_right_eq_some.mp hs
    exact destroy_grows hown hp hbelow he
  | _ => exact hp.elim

lemma step_shrinks {a : Act W T} (hs : step s a = some s')
    (hp : ¬ (Posts s a ∧ s.tp.waiting < s.tp.maxQueue)) : Shrinks s s' := by
  cases a with
  | post t lockRc signalRc wakes =>
    obtain ⟨-, he⟩ := Option.ite_none_right_eq_some.mp hs
    cases he
    exact post_shrinks _ wakes fun h => hp ⟨⟨h.1, h.2.1⟩, h.2.2⟩
  | destroy lockRc signalRc wakes =>
    obtain ⟨-, he⟩ := Option.ite_none_right_eq_some.mp hs
    exact destroy_shrinks hp he
  | enter w lockRc unlockRc =>
    obtain ⟨-, he⟩ := Option.ite_none_right_eq_some.mp hs
    cases he
    cases lockRc with
    | ERROR => exact .of_eq rfl rfl rfl
    | OK =>
      have htake := takeTask_shrinks (s := s.decWaiting) w unlockRc
      refine ⟨htake.queued, htake.waiting.trans ?_, htake.maxQueue⟩
      show s.tp.waiting - 1 ≤ s.tp.waiting
      omega
  | resume w waitRc unlockRc =>
    obtain ⟨-, he⟩ := Option.ite_none_right_eq_some.mp hs
    cases he
    cases waitRc with
    | ERROR => exact .of_eq rfl rfl rfl
    | OK => exact takeTask_shrinks w unlockRc
  | alloc t | release t | wake w =>
    obtain ⟨-, he⟩ := Option.ite_none_right_eq_some.mp hs
    cases he
    exact .of_eq rfl rfl rfl
  | call w =>
    obtain ⟨task, i, -, rfl⟩ := step_call hs
    exact .of_eq rfl rfl rfl
  | ret w =>
    obtain ⟨t, i, -, rfl⟩ := step_ret hs
    exact .of_eq rfl rfl rfl
  | free w =>
    obtain ⟨task, i, -, rfl⟩ := step_free hs
    exact .of_eq rfl rfl rfl
  | exit w =>
    obtain ⟨i, -, rfl⟩ | ⟨-, rfl⟩ := step_exit hs <;> exact .of_eq rfl rfl rfl

/-- The queue holds at most `Q` tasks. -/
def Capacity (Q : ℕ) (s : State W T) : Prop := ∃ l, s.tp.queue.Represents l ∧ l.length ≤ Q

/-- A post that finds `Q` tasks queued finds them all counted in `waiting`: no worker
is still looking for one of them. -/
def Counted (Q : ℕ) (s : State W T) (a : Act W T) : Prop :=
  Posts s a → Q ≤ s.queued.length → (s.queued.length : ℤ) ≤ s.tp.waiting

/-- What is known of a pool that has kept to its capacity. -/
structure Bounded (Q : ℕ) (s : State W T) : Prop where
  owns : Owns s
  maxQueue : s.tp.maxQueue = Q
  queued : s.queued.length ≤ Q

variable {Q : ℕ}

omit [DecidableEq W] [DecidableEq T] [Fintype W] in
lemma Bounded.capacity (h : Bounded Q s) : Capacity Q s := ⟨s.queued, h.owns.queue, h.queued⟩

lemma Bounded.step (h : Bounded Q s) {a : Act W T} (hok : Counted Q s a)
    (hs : step s a = some s') : Bounded Q s' := by
  have hmax := h.maxQueue
  have hqueued := h.queued
  by_cases hp : Posts s a ∧ s.tp.waiting < s.tp.maxQueue
  · have hg := step_grows h.owns hs hp.1 hp.2
    have hroom : s.queued.length < Q := by
      by_contra hfull
      have hcount := hok hp.1 (not_lt.mp hfull)
      omega
    refine ⟨h.owns.step hs, hg.maxQueue.trans hmax, ?_⟩
    rw [hg.queued]
    omega
  · have hsh := step_shrinks hs hp
    exact ⟨h.owns.step hs, hsh.maxQueue.trans hmax, hsh.queued.trans hqueued⟩

lemma Bounded.overrun (h : Bounded Q s) {a : Act W T} (hno : ¬ Counted Q s a)
    (hs : ThreadPool.step s a = some s') : ¬ Capacity Q s' := by
  have hmax := h.maxQueue
  have hqueued := h.queued
  simp only [Counted, Classical.not_imp, not_le] at hno
  obtain ⟨hp, hfull, hbehind⟩ := hno
  have hg := step_grows h.owns hs hp (by omega)
  rintro ⟨l, hl, hle⟩
  rw [hl.unique (h.owns.step hs).queue, hg.queued] at hle
  omega

/-- In a run of the pool the queue holds at most `max_queue` tasks, in every state,
exactly if every post that finds `max_queue` tasks finds no worker that still looks
for one. -/
theorem capacity_iff (W T : Type) [DecidableEq W] [DecidableEq T] [Fintype W] (Q : ℕ)
    (acts : List (Act W T)) :
    (system W T Q).Throughout (Capacity Q) (start W T Q) acts ↔
      (system W T Q).Along (Counted Q) (start W T Q) acts := by
  have hstart : Bounded Q (start W T Q) := by
    have hreach : (system W T Q).Reachable (start W T Q) := .init rfl
    exact ⟨owns_of_reach hreach, rfl, Nat.zero_le Q⟩
  exact System.throughout_iff_along (I := Bounded Q) (fun _ h => h.capacity)
    (fun _ _ _ h hok hs => h.step hok hs) (fun _ _ _ h hno hs => h.overrun hno hs) hstart acts

/-- The worker `w` sleeps, and two tasks are posted before it runs again. -/
def burstRun (w : W) (t t' : T) : List (Act W T) :=
  [.alloc t, .alloc t', .enter w .OK .OK, .post t .OK .OK {w}, .post t' .OK .OK ∅]

theorem capacity_exceeded :
    ∃ s, (system (Fin 1) (Fin 2) 1).Reachable s ∧
      s.queued = [.heap 0, .heap 1] ∧ ¬ Capacity 1 s := by
  have hrun : ((system (Fin 1) (Fin 2) 1).exec (start (Fin 1) (Fin 2) 1) (burstRun 0 0 1)).map
      (·.queued) = some [.heap 0, .heap 1] := by
    decide +kernel
  obtain ⟨s, hs, hqueued⟩ := Option.map_eq_some_iff.mp hrun
  have hreach : (system (Fin 1) (Fin 2) 1).Reachable s :=
    System.Reach.exec (.init rfl) (fun _ _ _ => trivial) hs
  refine ⟨s, hreach, hqueued, ?_⟩
  rintro ⟨l, hl, hle⟩
  rw [hl.unique (owns_of_reach hreach).queue, hqueued] at hle
  exact absurd hle (by decide)

/-- What does hold: the queue is never longer than `max_queue` and one task for each
worker. -/
theorem queued_le {maxQueue : ℤ} (hmax : 0 ≤ maxQueue)
    (h : (system W T maxQueue).Reach (fun _ a => Succeeds a) s) :
    (s.queued.length : ℤ) ≤ maxQueue + Fintype.card W := by
  have hle : s.tp.waiting ≤ maxQueue := by
    refine h.invariant_under (I := fun s => s.tp.waiting ≤ maxQueue)
      (J := fun s => Owns s ∧ Balance maxQueue s)
      (fun _ hr => ⟨owns_of_reach hr, balance_of_reach hr⟩) ?_ ?_
    · rintro s rfl
      exact hmax
    · rintro s a s' ⟨hown, hbal⟩ hle - hs
      have hm := hbal.maxQueue_eq
      by_cases hp : Posts s a ∧ s.tp.waiting < s.tp.maxQueue
      · have hg := (step_grows hown hs hp.1 hp.2).waiting
        omega
      · exact (step_shrinks hs hp).waiting.trans hle
  have hwaiting := (balance_of_reach h).waiting
  have hcard : s.looking.card ≤ Fintype.card W := Finset.card_le_univ s.looking
  omega

end ShareBike.ThreadPool
