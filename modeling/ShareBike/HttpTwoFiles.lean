import ShareBike.HttpServerSafety

/-!
# The HTTP server of two files

`connect_handle` asks the epoll instance of its own variable `epfd`, which is 0, for
the events of a client. So no accepted client ever comes into the interest set that
`main` waits for.
-/
namespace ShareBike.Http
open ShareBike.Lib

/-- Every client is in the interest set of the instance that `main` waits for. -/
def Monitored (s : State) : Prop := ∀ fd, s.server.IsClient fd → (s.server.interest fd).isSome

/-- No client is accepted in this step. -/
def NoClient (_ : State) : Act → Prop
  | .handle sys => sys.accept = none
  | _ => True

/-- A state in which only the listening socket is monitored, and there are no clients. -/
structure Alone (s : State) : Prop where
  epfd : s.server.serverEpfd ≠ s.server.mainEpfd
  zero_open : s.server.isOpen 0 = true
  listen_open : s.server.isOpen s.server.listenSock = true
  main_open : s.server.isOpen s.server.mainEpfd = true
  nobody : ∀ fd, ¬ s.server.IsClient fd
  interest : ∀ fd r, s.server.interest fd = some r → fd = s.server.listenSock ∧
    ∃ stat, s.server.heap r.2 = some stat ∧ stat.get .fd = s.server.listenSock
  revs : ∀ revs ∈ s.revs, ∀ e ∈ revs, e.1 ≠ 0 ∧
    ∃ stat, s.server.heap e.2 = some stat ∧ stat.get .fd = s.server.listenSock

variable {code : Code} {s s' : State} {act : Act}

lemma Alone.monitored (h : Alone s) : Monitored s := fun fd hc => absurd hc (h.nobody fd)

/-- An event of the listening socket, by what `accept` returns. -/
lemma Alone.handleEvent (h : Alone s) {events p : ℕ} {revs : List (ℕ × ℕ)}
    (hrevs : s.revs = some ((events, p) :: revs)) (sys : Sys) :
    handleEvent code sys events p s.server =
      .ok (match sys.accept with
        | none => s.server
        | some newFd =>
          let t := { s.server with isOpen := Function.update s.server.isOpen newFd true }
          if newFd > 0 then t.connectHandle newFd sys.addr else t) := by
  obtain ⟨hne, stat, hp, hfd⟩ := h.revs _ hrevs (events, p) List.mem_cons_self
  rw [Http.handleEvent, hp]
  dsimp only
  rw [if_pos ⟨hfd, hne⟩]
  cases sys.accept <;> rfl

lemma Alone.step (h : Alone s) (hno : NoClient s act) (hs : step code s act = some s') :
    Alone s' := by
  rw [Http.step.eq_def] at hs
  split at hs
  · rename_i evs hfault hrevs
    split_ifs at hs with hb
    cases hs
    refine { h with revs := fun revs hr e he => ?_ }
    cases hr
    obtain ⟨⟨fd, ev⟩, hev, hmap⟩ := List.mem_filterMap.mp he
    obtain ⟨r, hreg, heq⟩ := Option.map_eq_some_iff.mp hmap
    obtain ⟨r', -, hrep⟩ := hb.2.2 _ hev
    cases heq
    exact ⟨hrep.1, (h.interest fd r hreg).2⟩
  · rename_i sys events p revs hfault hrevs
    split_ifs at hs with hposs
    have hacc : sys.accept = none := hno
    rw [h.handleEvent hrevs, hacc] at hs
    cases hs
    refine { h with revs := fun revs' hr e he => ?_ }
    cases hr
    exact h.revs _ hrevs e (List.mem_cons_of_mem _ he)
  · cases hs
    refine { h with revs := fun revs hr => ?_ }
    cases hr
  · cases hs

/-- The request to monitor an accepted client goes to another descriptor. -/
lemma Alone.lost (h : Alone s) (hno : ¬ NoClient s act) (hs : Http.step code s act = some s') :
    ¬ Monitored s' := by
  cases act with
  | wait evs => exact absurd trivial hno
  | done => exact absurd trivial hno
  | handle sys =>
    obtain ⟨newFd, hacc⟩ := Option.ne_none_iff_exists'.mp hno
    rw [Http.step.eq_def] at hs
    split at hs
    · rename_i heq _
      cases heq
    · rename_i sys' events p revs hfault heq hrevs
      cases heq
      split_ifs at hs with hposs
      have hnew := (hposs.1 newFd hacc).1
      have hne : ∀ fd, s.server.isOpen fd = true → newFd ≠ fd := by
        rintro fd hopen rfl
        rw [hnew] at hopen
        cases hopen
      have hpos : newFd > 0 := Nat.pos_of_ne_zero (hne 0 h.zero_open)
      rw [h.handleEvent hrevs, hacc] at hs
      dsimp only at hs
      rw [if_pos hpos] at hs
      cases hs
      intro hm
      have hclient : (Server.connectHandle { s.server with
          isOpen := Function.update s.server.isOpen newFd true } newFd sys.addr).IsClient newFd :=
        ⟨Function.update_self _ _ _, hne 0 h.zero_open, hne _ h.listen_open, hne _ h.main_open⟩
      have hsome := hm newFd hclient
      have hnone : s.server.interest newFd = none := by
        by_contra hreg
        obtain ⟨r, hr⟩ := Option.ne_none_iff_exists'.mp hreg
        exact hne _ h.listen_open (h.interest newFd r hr).1
      have hignored : (Server.connectHandle { s.server with
          isOpen := Function.update s.server.isOpen newFd true } newFd sys.addr).interest =
          s.server.interest := by
        simp [Server.connectHandle, Server.epollCtl, Server.setStat, Lib.epollCtl, h.epfd]
      rw [hignored, hnone] at hsome
      cases hsome
    · rename_i heq _
      cases heq
    · cases hs

lemma alone_start {listenSock epfd p : ℕ} (hc : Created listenSock epfd p) :
    Alone (start listenSock epfd 0 p) := by
  refine ⟨hc.ne_zero.symm, by simp [start], by simp [start], by simp [start], ?_, ?_, ?_⟩
  · rintro fd ⟨hopen, h0, hl, hm⟩
    have hcases : fd = 0 ∨ fd = listenSock ∨ fd = epfd := of_decide_eq_true hopen
    rcases hcases with h | h | h
    · exact h0 h
    · exact hl h
    · exact hm h
  · intro fd r hr
    obtain ⟨rfl, rfl⟩ := update_none_eq_some.mp hr
    have hstat : (start fd epfd 0 p).server.heap p = some (statInit fd) := by simp [start]
    refine ⟨rfl, statInit fd, hstat, ?_⟩
    apply get_statInit_fd
    exact Nat.lt_trans hc.listen_lt (by decide)
  · intro revs hr
    cases hr

/-- In a run of the two-file server every client is monitored, in every state,
exactly if no client is ever accepted. -/
theorem monitored_iff_no_client (code : Code) {s : State} (h : (twoFiles code).init s)
    (acts : List Act) :
    (twoFiles code).Throughout Monitored s acts ↔ (twoFiles code).Along NoClient s acts := by
  obtain ⟨listenSock, epfd, p, hc, rfl⟩ := h
  exact System.throughout_iff_along (I := Alone) (fun _ hs => hs.monitored)
    (fun _ _ _ hs hno hstep => hs.step hno hstep) (fun _ _ _ hs hno hstep => hs.lost hno hstep)
    (alone_start hc) acts

/-- One client connects. -/
def connectRun : List Act := [.wait [(3, EPOLLIN)], .handle ⟨some 5, 0x2000, .error⟩]

lemma twoFiles_init : (twoFiles sampleCode).init (start 3 4 0 0x1000) :=
  ⟨3, 4, 0x1000, ⟨by decide, by decide, by decide, by decide, by decide⟩, rfl⟩

theorem monitored_iff_no_client_connect :
    (twoFiles sampleCode).Throughout Monitored (start 3 4 0 0x1000) connectRun ↔
      (twoFiles sampleCode).Along NoClient (start 3 4 0 0x1000) connectRun :=
  monitored_iff_no_client sampleCode twoFiles_init connectRun

theorem client_not_monitored :
    ∃ s, (twoFiles sampleCode).Reachable s ∧ s.server.IsClient 5 ∧ ¬ Monitored s := by
  have hrun : ((twoFiles sampleCode).exec (start 3 4 0 0x1000) connectRun).map
      (fun s => (s.server.isOpen 5, s.server.listenSock, s.server.mainEpfd,
        s.server.interest 5)) = some (true, 3, 4, none) := by
    decide +kernel
  obtain ⟨s, hs, heq⟩ := Option.map_eq_some_iff.mp hrun
  simp only [Prod.mk.injEq] at heq
  obtain ⟨hopen, hl, hm, hreg⟩ := heq
  have hclient : s.server.IsClient 5 := by
    refine ⟨hopen, by decide, ?_, ?_⟩
    · rw [hl]
      decide
    · rw [hm]
      decide
  refine ⟨s, System.Reach.exec (.init twoFiles_init) (fun _ _ _ => trivial) hs, hclient, ?_⟩
  intro hmon
  have hsome := hmon 5 hclient
  rw [hreg] at hsome
  cases hsome

end ShareBike.Http
