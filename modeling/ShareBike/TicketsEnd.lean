import ShareBike.Tickets

/-!
# The stations end

If no call fails then the two threads come to an end in whatever order they take their steps,
and all tickets are sold that there are turns for.
-/
namespace ShareBike.Tickets
open ShareBike.Lib

variable {rounds : ℕ} {tickets : ℤ} {s s' : State} {t : Thread}

/-- A step in which no call fails. -/
def Works : Act → Prop
  | .go _ => True
  | .fail => False

/-- How many steps a thread can still take; a turn has six, and one more to be above the
calls after the loop. -/
def Pc.rank (rounds : ℕ) : Pc → ℕ
  | init => 14 * rounds + 9
  | create => 14 * rounds + 8
  | idle => 0
  | lock i => 7 * (rounds - i) + 2
  | test i => 7 * (rounds - i) + 1
  | print i => 7 * (rounds - i)
  | load i => 7 * (rounds - i) - 1
  | store i _ => 7 * (rounds - i) - 2
  | unlock i => 7 * (rounds - i) - 3
  | join => 2
  | destroy => 1
  | ended => 0

def State.rank (rounds : ℕ) (s : State) : ℕ :=
  if s.exited = none then both (Pc.rank rounds) s.pc else 0

lemma turn_rank_le (rounds i : ℕ) (t : Thread) :
    (Pc.turn rounds i t).rank rounds ≤ 7 * (rounds - i) + 2 := by
  unfold Pc.turn
  split_ifs
  · exact Nat.le_refl _
  · cases t <;> simp only [Pc.rank] <;> omega

/-- A thread goes on. -/
lemma rank_move {p : Pc} (hrun : s.exited = none) (hrun' : s'.exited = none)
    (hpc : s'.pc = Function.update s.pc t p) (hp : p.rank rounds < (s.pc t).rank rounds) :
    s'.rank rounds < s.rank rounds := by
  have hboth := both_update (Pc.rank rounds) s.pc t p
  unfold State.rank
  rw [if_pos hrun, if_pos hrun', hpc]
  omega

/-- The step lemma: every step of a thread lowers the rank. -/
lemma rank_goes (h : Sells rounds tickets s) (hrun : s.exited = none)
    (hg : Goes rounds s t s') : s'.rank rounds < s.rank rounds := by
  have hturn : ∀ i, (s.pc t).number = some i → i < rounds := h.counted.turns t
  cases hg with
  | init hpc => exact rank_move hrun hrun rfl (by rw [hpc]; simp [Pc.rank])
  | create hpc =>
    obtain rfl := h.placed.eq_main (.inr (.inl hpc))
    have hmain := turn_rank_le rounds 0 .main
    have hchild := turn_rank_le rounds 0 .child
    unfold State.rank
    rw [if_pos hrun, if_pos (show ((s.goto .child _).goto .main _).exited = none from hrun)]
    unfold both
    rw [goto_pc, if_pos rfl, goto_pc, if_neg (by decide), goto_pc, if_pos rfl, hpc]
    have hcreate : Pc.create.rank rounds = 14 * rounds + 8 := rfl
    omega
  | lock hpc hfree => exact rank_move hrun hrun rfl (by rw [hpc]; simp [Pc.rank])
  | some hpc hpos => exact rank_move hrun hrun rfl (by rw [hpc]; simp [Pc.rank])
  | none hpc hneg =>
    refine rank_move hrun hrun rfl ?_
    rw [hpc]
    simp only [Pc.rank]
    omega
  | @print i hpc =>
    have hi := hturn i (by rw [hpc]; rfl)
    refine rank_move hrun hrun rfl ?_
    rw [hpc]
    simp only [Pc.rank]
    omega
  | @load i hpc =>
    have hi := hturn i (by rw [hpc]; rfl)
    refine rank_move hrun hrun rfl ?_
    rw [hpc]
    simp only [Pc.rank]
    omega
  | @store i v hpc =>
    have hi := hturn i (by rw [hpc]; rfl)
    refine rank_move hrun hrun rfl ?_
    rw [hpc]
    simp only [Pc.rank]
    omega
  | @unlock i hpc =>
    have hi := hturn i (by rw [hpc]; rfl)
    refine rank_move hrun hrun rfl (lt_of_le_of_lt (turn_rank_le rounds (i + 1) t) ?_)
    rw [hpc]
    simp only [Pc.rank]
    omega
  | join hpc hended => exact rank_move hrun hrun rfl (by rw [hpc]; simp [Pc.rank])
  | destroy hpc =>
    have hboth : (s.pc t).rank rounds ≤ both (Pc.rank rounds) s.pc := by
      unfold both
      cases t <;> omega
    unfold State.rank
    rw [if_pos hrun, if_neg (by simp [State.exit])]
    rw [hpc] at hboth
    exact hboth

/-- A thread that is inside can go on. -/
lemma go_of_inside (hin : (s.pc t).inside) : s.go rounds t ≠ none := by
  unfold State.go
  cases hpc : s.pc t <;> rw [hpc] at hin <;> cases hin <;> simp

/-- While the process has not ended some thread can go on. -/
lemma Sells.exists_go (h : Sells rounds tickets s) : ∃ t, s.go rounds t ≠ none := by
  by_cases hin : ∃ t, (s.pc t).inside
  · obtain ⟨t, ht⟩ := hin
    exact ⟨t, go_of_inside ht⟩
  · -- nobody is inside, so the lock is free
    have hfree : s.lock = none := by
      cases hlock : s.lock with
      | none => rfl
      | some t => exact absurd ⟨t, (h.locked t).mpr hlock⟩ hin
    have hgo : ∀ t i, s.pc t = .lock i → s.go rounds t ≠ none := by
      intro t i hpc
      simp [State.go, hpc, hfree]
    have hout : ∀ t, (s.pc t).inside = false := by
      intro t
      rw [← Bool.not_eq_true]
      exact fun hi => hin ⟨t, hi⟩
    have houtside := hout .main
    cases hmain : s.pc .main with
    | idle => exact absurd hmain h.placed.main.1
    | ended => exact absurd hmain h.placed.main.2
    | lock i => exact ⟨.main, hgo .main i hmain⟩
    | init | create | destroy => exact ⟨.main, by simp [State.go, hmain]⟩
    | test i | print i | load i | store i v | unlock i =>
      rw [hmain] at houtside
      cases houtside
    | join =>
      have hchildOut := hout .child
      obtain ⟨hinit, hcreate, hjoin, hdestroy⟩ := h.placed.child
      cases hchild : s.pc .child with
      | lock i => exact ⟨.child, hgo .child i hchild⟩
      | ended => exact ⟨.main, by simp [State.go, hmain, hchild]⟩
      | idle =>
        rcases h.placed.alone.mpr hchild with he | he <;> rw [hmain] at he <;> cases he
      | test i | print i | load i | store i v | unlock i =>
        rw [hchild] at hchildOut
        cases hchildOut
      | init => exact absurd hchild hinit
      | create => exact absurd hchild hcreate
      | join => exact absurd hchild hjoin
      | destroy => exact absurd hchild hdestroy

/-- Without failing calls the process ends well, if it ends. -/
lemma exited_of_reach (h : (system rounds tickets).Reach (fun _ a => Works a) s) :
    s.exited = none ∨ s.exited = some 0 := by
  refine h.invariant (I := fun s => s.exited = none ∨ s.exited = some 0) (fun s hs => ?_)
    fun s a s' hI ha hs => ?_
  · rw [hs]
    exact .inl rfl
  · cases a with
    | go t =>
      obtain ⟨hrun, hgo⟩ := Option.ite_none_right_eq_some.mp hs
      cases goes_of_go hgo with
      | destroy hpc => exact .inr rfl
      | _ => exact .inl hrun
    | fail => exact ha.elim

lemma descends : (system rounds tickets).Descends Works
    ((system rounds tickets).Reach fun _ a => Works a) (State.rank rounds) := by
  intro s a s' h ha hs
  refine ⟨.step h ha hs, ?_⟩
  cases a with
  | go t =>
    obtain ⟨hrun, hgo⟩ := Option.ite_none_right_eq_some.mp hs
    exact rank_goes (sells_of_reachable h.reachable) hrun (goes_of_go hgo)
  | fail => exact ha.elim

/-- The threads never wait for each other for ever: from every state of a run in which no
call failed, the steps of the threads are bounded in every order, and they can only stop
when the process has ended well, with every turn taken and all the tickets sold that there
are turns for. -/
theorem stations_end (rounds : ℕ) (tickets : ℤ) {s : State}
    (h : (system rounds tickets).Reach (fun _ a => Works a) s) :
    (∀ as s', (∀ a ∈ as, Works a) → (system rounds tickets).exec s as = some s' →
      as.length + s'.rank rounds ≤ s.rank rounds ∧
      ((system rounds tickets).Stuck Works s' →
        s'.exited = some 0 ∧ s'.global_value = tickets - 2 * rounds ∧
        s'.sold.map Sale.ticket =
          (List.range (min tickets.toNat (2 * rounds))).map fun k : ℕ => tickets - k)) ∧
    ∃ as s', (∀ a ∈ as, Works a) ∧ (system rounds tickets).exec s as = some s' ∧
      (system rounds tickets).Stuck Works s' := by
  have hdesc : (system rounds tickets).Descends Works _ _ := descends
  refine ⟨fun as s' hworks hexec => ?_, hdesc.exists_stuck h⟩
  obtain ⟨hreach, hlength⟩ := hdesc.exec h hworks hexec
  refine ⟨hlength, fun hstuck => ?_⟩
  have hsells := sells_of_reachable hreach.reachable
  have hexited : s'.exited = some 0 := by
    refine (exited_of_reach hreach).resolve_left fun hrun => ?_
    obtain ⟨t, hgo⟩ := hsells.exists_go
    have hnone : step rounds s' (.go t) = none := hstuck (.go t) trivial
    simp only [step, if_pos hrun] at hnone
    exact hgo hnone
  obtain ⟨-, -, hvalue, hserved⟩ := hsells.final hexited
  refine ⟨hexited, hvalue, ?_⟩
  rw [hsells.counted.sold, hserved]

/-- The stations of the source, from their start. -/
theorem stations_end_thousand : ∃ as s', (system 10 1000).exec (start 1000) as = some s' ∧
    s'.global_value = 980 ∧
    s'.sold.map Sale.ticket = (List.range 20).map fun k : ℕ => (1000 : ℤ) - k := by
  obtain ⟨hall, as, s', hworks, hexec, hstuck⟩ := stations_end 10 1000 (.init rfl)
  obtain ⟨-, hvalue, hsold⟩ := (hall as s' hworks hexec).2 hstuck
  exact ⟨as, s', hexec, hvalue, hsold⟩

end ShareBike.Tickets
