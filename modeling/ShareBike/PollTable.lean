import ShareBike.PollServer

/-!
# The table of the `poll` server

The table is changed while it is scanned. A slot that is filled during the scan reports
nothing, and a slot that is cleared lies behind the scan, so whatever the scan acts on was
reported by the last `poll` for the present owner of the slot. This holds in all runs, also
those in which the one variable `ch` mixes up the clients' replies.
-/
namespace ShareBike.PollServer
open ShareBike.Lib

/-- The slot's descriptor is closed in this visit. -/
abbrev Closes (s : Server) (i : ℕ) (read : ReadResult) : Prop :=
  (s.fds i).revents.pollin ∧ (s.fds i).fd ≠ s.serverSockfd ∧ read = .eof

/-- The visit of the slot leads to a system call on its descriptor. -/
abbrev Acts (s : Server) (i : ℕ) : Prop :=
  Accepts s i ∨ (s.fds i).fd ≠ s.serverSockfd ∧
    ((s.fds i).revents.pollin ∨ (s.fds i).revents.pollout)

/-- The connection that has the descriptor. -/
def owner (s : Server) (fd : ℕ) : Option ℕ := if fd ∈ s.clients then some (s.conn fd) else none

/-- The descriptors that were accepted or closed in the current scan, and the server as
`poll` left it before the scan. -/
structure Scan where
  touched : Finset ℕ
  polled : Server

def record (s : Server) (a : Act) (h : Scan) : Scan :=
  match s.loop, a with
  | .top, .poll revents => ⟨∅, pollFds s revents⟩
  | .scan i, .visit newFd read =>
    if Accepts s i then { h with touched := insert newFd h.touched }
    else if Closes s i read then { h with touched := insert (s.fds i).fd h.touched }
    else h
  | _, _ => h

/-- The server with the history of its current scan. -/
def scanning : System (Server × Scan) Act := system.withHistory ⟨∅, start 0⟩ record

variable {s : Server} {i newFd : ℕ} {read : ReadResult}

/-- Whatever is reported and read, a visit keeps the table in order. -/
lemma Slots.visit (h : Slots s) (hp : Pending s i) (hf : Accepts s i → Fresh s newFd) :
    Slots (visitSlot s i newFd read) := by
  unfold visitSlot
  split_ifs with hzero hserver hin hout
  · exact h
  · exact h.accept (hf ⟨hzero, hserver⟩)
  · have hi := h.client_of_ready hp hserver (.inl hin)
    cases read with
    | byte b => exact h.rearm hi (.inr rfl) rfl rfl rfl rfl
    | eof => exact h.close hi
    | error => exact h.rearm hi (.inr rfl) rfl rfl rfl rfl
  · have hi := h.client_of_ready hp hserver (.inr hout)
    exact h.rearm hi (.inl rfl) rfl rfl rfl rfl
  · exact h

/-- A visit changes its own slot if that is a client's, and the slot of a new client. -/
lemma visitSlot_frame (h : Slots s) (hp : Pending s i) {j : ℕ} (hji : i ∈ s.clients → j ≠ i)
    (hnew : Accepts s i → j ≠ newFd) :
    (visitSlot s i newFd read).fds j = s.fds j ∧
      owner (visitSlot s i newFd read) j = owner s j := by
  unfold visitSlot
  split_ifs with hzero hserver hin hout
  · exact ⟨rfl, rfl⟩
  · have hne := hnew ⟨hzero, hserver⟩
    simp [acceptClient, owner, hne]
  · have hi := h.client_of_ready hp hserver (.inl hin)
    have hne := hji hi
    cases read with
    | byte b => exact ⟨Function.update_of_ne hne _ _, rfl⟩
    | eof => simp [closeClient, owner, hne, h.fd_eq i hi]
    | error => exact ⟨Function.update_of_ne hne _ _, rfl⟩
  · have hi := h.client_of_ready hp hserver (.inr hout)
    exact ⟨Function.update_of_ne (hji hi) _ _, rfl⟩
  · exact ⟨rfl, rfl⟩

lemma visitSlot_serverSockfd (s : Server) (i newFd : ℕ) (read : ReadResult) :
    (visitSlot s i newFd read).serverSockfd = s.serverSockfd := by
  unfold visitSlot
  split_ifs
  · rfl
  · rfl
  · cases read <;> rfl
  · rfl
  · rfl

/-- The slots that the scan has not reached: one that was touched in this scan reports
nothing, any other one is as `poll` left it, and so is its owner. -/
structure Tracked (s : Server) (h : Scan) (k : ℕ) : Prop where
  server : s.serverSockfd ∉ h.touched
  quiet : ∀ i ∈ h.touched, k ≤ i → (s.fds i).revents = .zero
  same : ∀ i, i ∉ h.touched → k ≤ i →
    s.fds i = h.polled.fds i ∧ owner s i = owner h.polled i

lemma Tracked.visit {h : Scan} (ht : Tracked s h i) (hs : Slots s) (hp : Pending s i)
    (hloop : s.loop = .scan i) (hf : Accepts s i → Fresh s newFd) :
    Tracked (visitSlot s i newFd read) (record s (.visit newFd read) h) (i + 1) := by
  have hframe : ∀ j, i + 1 ≤ j → (Accepts s i → j ≠ newFd) →
      (visitSlot s i newFd read).fds j = s.fds j ∧
        owner (visitSlot s i newFd read) j = owner s j := fun j hj hnew =>
    visitSlot_frame hs hp (fun _ => by omega) hnew
  have hserver := visitSlot_serverSockfd s i newFd read
  by_cases hacc : Accepts s i
  · obtain ⟨-, hne, -⟩ := hf hacc
    have hrec : record s (.visit newFd read) h = { h with touched := insert newFd h.touched } := by
      simp only [record, hloop, if_pos hacc]
    rw [hrec]
    refine ⟨?_, ?_, ?_⟩
    · rw [hserver, Finset.mem_insert, not_or]
      exact ⟨hne.symm, ht.server⟩
    · intro j hj hij
      by_cases hjn : j = newFd
      · have hvisit : visitSlot s i newFd read = acceptClient s newFd := by
          unfold visitSlot
          rw [if_neg hacc.1, if_pos hacc.2]
        simp [hvisit, acceptClient, hjn]
      · have hold : j ∈ h.touched := (Finset.mem_insert.mp hj).resolve_left hjn
        rw [(hframe j hij fun _ => hjn).1]
        exact ht.quiet j hold (by omega)
    · intro j hj hij
      rw [Finset.mem_insert, not_or] at hj
      obtain ⟨hfds, hown⟩ := hframe j hij fun _ => hj.1
      rw [hfds, hown]
      exact ht.same j hj.2 (by omega)
  · have hquiet : ∀ j ∈ h.touched, i + 1 ≤ j →
        ((visitSlot s i newFd read).fds j).revents = .zero := by
      intro j hj hij
      rw [(hframe j hij fun hn => absurd hn hacc).1]
      exact ht.quiet j hj (by omega)
    have hsame : ∀ j, j ∉ h.touched → i + 1 ≤ j →
        (visitSlot s i newFd read).fds j = h.polled.fds j ∧
          owner (visitSlot s i newFd read) j = owner h.polled j := by
      intro j hj hij
      obtain ⟨hfds, hown⟩ := hframe j hij fun hn => absurd hn hacc
      rw [hfds, hown]
      exact ht.same j hj (by omega)
    by_cases hclose : Closes s i read
    · -- the closed slot is a client's, and the scan has reached it
      have hi := hs.client_of_ready hp hclose.2.1 (.inl hclose.1)
      have hfd := hs.fd_eq i hi
      have hrec : record s (.visit newFd read) h = { h with touched := insert i h.touched } := by
        simp only [record, hloop, if_neg hacc, if_pos hclose, hfd]
      rw [hrec]
      refine ⟨?_, ?_, ?_⟩
      · rw [hserver, Finset.mem_insert, not_or]
        exact ⟨fun he => hs.server_not_client (he ▸ hi), ht.server⟩
      · intro j hj hij
        have hne : j ≠ i := by omega
        exact hquiet j ((Finset.mem_insert.mp hj).resolve_left hne) hij
      · intro j hj hij
        rw [Finset.mem_insert, not_or] at hj
        exact hsame j hj.2 hij
    · have hrec : record s (.visit newFd read) h = h := by
        simp only [record, hloop, if_neg hacc, if_neg hclose]
      rw [hrec]
      exact ⟨hserver ▸ ht.server, hquiet, hsame⟩

/-- The invariant of the loop in all runs. -/
structure Kept (p : Server × Scan) : Prop where
  slots : Slots p.1
  listening : (p.1.fds p.1.serverSockfd).events = .POLLIN
  bound : p.1.curMaxFd ≤ maxFd
  scan : ∀ k, p.1.loop = .scan k → Pending p.1 k ∧ Tracked p.1 p.2 k

lemma visitSlot_curMaxFd (hf : Accepts s i → Fresh s newFd) (hmax : s.curMaxFd ≤ maxFd) :
    (visitSlot s i newFd read).curMaxFd ≤ maxFd := by
  unfold visitSlot
  split_ifs with hzero hserver
  · exact hmax
  · obtain ⟨hlt, -⟩ := hf ⟨hzero, hserver⟩
    simp only [acceptClient]
    split_ifs
    · exact hlt
    · exact hmax
  · cases read <;> exact hmax
  · exact hmax
  · exact hmax

/-- `poll` starts a scan in which nothing was touched. -/
lemma Kept.poll {p : Server × Scan} (h : Kept p) {revents : ℕ → Bits}
    (hr : Reported p.1 revents) :
    Kept ({ pollFds p.1 revents with loop := .scan 0 }, ⟨∅, pollFds p.1 revents⟩) := by
  refine ⟨(h.slots.poll revents).of_loop _, ?_, h.bound, ?_⟩
  · have hlisten := h.listening
    simp only [pollFds]
    split_ifs <;> exact hlisten
  · rintro k hk
    cases hk
    refine ⟨h.slots.pending_poll hr, by simp, ?_, ?_⟩
    · intro i hi
      cases hi
    · exact fun i _ _ => ⟨rfl, rfl⟩

lemma Kept.visit {p : Server × Scan} (h : Kept p) (hloop : p.1.loop = .scan i)
    (hf : Accepts p.1 i → Fresh p.1 newFd) :
    Kept ({ visitSlot p.1 i newFd read with loop := .scan (i + 1) },
      record p.1 (.visit newFd read) p.2) := by
  obtain ⟨hp, ht⟩ := h.scan i hloop
  refine ⟨(h.slots.visit hp hf).of_loop _, ?_, visitSlot_curMaxFd hf h.bound, ?_⟩
  · have hnew : Accepts p.1 i → p.1.serverSockfd ≠ newFd := fun hacc => (hf hacc).2.1.symm
    have hslot : i ∈ p.1.clients → p.1.serverSockfd ≠ i := fun hi he =>
      h.slots.server_not_client (he ▸ hi)
    have hframe : (visitSlot p.1 i newFd read).fds p.1.serverSockfd = p.1.fds p.1.serverSockfd :=
      (visitSlot_frame h.slots hp hslot hnew).1
    show ((visitSlot p.1 i newFd read).fds
      (visitSlot p.1 i newFd read).serverSockfd).events = .POLLIN
    rw [visitSlot_serverSockfd, hframe]
    exact h.listening
  · rintro k hk
    cases hk
    have ht' : Tracked (visitSlot p.1 i newFd read) (record p.1 (.visit newFd read) p.2) (i + 1) :=
      ht.visit h.slots hp hloop hf
    exact ⟨visitSlot_pending hp newFd read, ht'.server, ht'.quiet, ht'.same⟩

/-- The loop goes back to its top, or the server exits. -/
lemma Kept.of_loop {p : Server × Scan} (h : Kept p) {l : Loop} (hl : ∀ k, l ≠ .scan k)
    (scan : Scan) : Kept ({ p.1 with loop := l }, scan) :=
  ⟨h.slots.of_loop l, h.listening, h.bound, fun k hk => absurd hk (hl k)⟩

theorem Kept.step {p q : Server × Scan} {a : Act} (h : Kept p)
    (hs : scanning.step p a = some q) : Kept q := by
  obtain ⟨hstep, hrec⟩ := System.withHistory_step.mp hs
  obtain ⟨s', scan⟩ := q
  subst hrec
  clear hs
  simp only [system, PollServer.step] at hstep
  split at hstep
  · cases hstep
    exact h.of_loop (by simp) _
  · rename_i revents hloop
    split_ifs at hstep with hr
    cases hstep
    have hrecord : record p.1 (.poll revents) p.2 = ⟨∅, pollFds p.1 revents⟩ := by
      simp only [record, hloop]
    rw [hrecord]
    exact h.poll hr
  · rename_i i newFd read hloop
    split_ifs at hstep with _ hf
    · cases hstep
      exact h.visit hloop hf
    · cases hstep
      exact h.of_loop (by simp) _
  · cases hstep

lemma kept_of_reach {p : Server × Scan} (h : scanning.Reachable p) : Kept p := by
  refine h.invariant ?_ fun _ _ _ hk _ hs => hk.step hs
  rintro ⟨s, scan⟩ ⟨⟨fd, hfd, rfl⟩, -⟩
  refine ⟨(start_inv fd).1.slots, by simp [start], Nat.succ_le_of_lt hfd, ?_⟩
  intro k hk
  cases hk

/-- In every run the monitored slots are those of the listening socket and of the open
clients, each with its own index as descriptor, below `cur_max_fd`, and asking for one kind
of event. A slot on which the scan acts has a descriptor that was neither accepted nor closed
in this scan; the slot is as `poll` left it, and so is its owner. -/
theorem table_kept {p : Server × Scan} (h : scanning.Reachable p) :
    (∀ i, (p.1.fds i).events ≠ .zero ↔ i = p.1.serverSockfd ∨ i ∈ p.1.clients) ∧
    (∀ i, (p.1.fds i).events ≠ .zero → (p.1.fds i).fd = i ∧ i < p.1.curMaxFd ∧
      ((p.1.fds i).events = .POLLIN ∨ (p.1.fds i).events = .POLLOUT)) ∧
    p.1.curMaxFd ≤ maxFd ∧
    ∀ i, p.1.loop = .scan i → Acts p.1 i →
      (p.1.fds i).fd ∉ p.2.touched ∧ p.1.fds i = p.2.polled.fds i ∧
        owner p.1 i = owner p.2.polled i := by
  obtain ⟨hslots, hlisten, hbound, hscan⟩ := kept_of_reach h
  have hused : ∀ i, (p.1.fds i).events ≠ .zero → i = p.1.serverSockfd ∨ i ∈ p.1.clients := by
    intro i hi
    by_contra hnot
    rw [not_or] at hnot
    exact hi (hslots.idle i hnot.2 hnot.1)
  refine ⟨fun i => ⟨hused i, ?_⟩, fun i hi => ?_, hbound, fun i hloop hact => ?_⟩
  · rintro (rfl | hi)
    · rw [hlisten]
      decide
    · rcases hslots.events i hi with he | he <;> rw [he] <;> decide
  · rcases hused i hi with rfl | hi
    · exact ⟨hslots.server_fd, hslots.server_lt, .inl hlisten⟩
    · exact ⟨hslots.fd_eq i hi, hslots.lt_curMaxFd i hi, hslots.events i hi⟩
  · obtain ⟨hp, ht⟩ := hscan i hloop
    have hnot : i ∉ p.2.touched := by
      intro hi
      have hzero := ht.quiet i hi le_rfl
      rcases hact with ⟨hne, -⟩ | ⟨-, hr⟩
      · exact hne hzero
      · simp [hzero, Bits.zero] at hr
    refine ⟨?_, ht.same i hnot le_rfl⟩
    rcases hact with ⟨-, hserver⟩ | ⟨hne, hr⟩
    · rw [hserver]
      exact ht.server
    · rw [hslots.fd_eq i (hslots.client_of_ready hp hne hr)]
      exact hnot

/-- The clients have the descriptors 4 and 6. The first one is closed, a new client gets
its descriptor in the same scan, and then the scan reaches the slot of the other one. -/
def reuseRun : List Act :=
  .poll (reports [(5, .POLLIN)]) :: List.replicate 7 (.visit 4 .eof) ++
  .poll (reports [(5, .POLLIN)]) :: List.replicate 8 (.visit 6 .eof) ++
  .poll (reports [(4, .POLLIN), (5, .POLLIN), (6, .POLLIN)]) :: List.replicate 6 (.visit 4 .eof)

theorem table_kept_reuse :
    ∃ p, scanning.exec (start 5, ⟨∅, start 0⟩) reuseRun = some p ∧
      p.1.clients = {4, 6} ∧ p.2.touched = {4} ∧
      (p.1.fds 6).fd ∉ p.2.touched ∧ p.1.fds 6 = p.2.polled.fds 6 := by
  have hrun : (scanning.exec (start 5, ⟨∅, start 0⟩) reuseRun).map
      (fun p => (p.1.clients, p.2.touched, p.1.loop, decide (Acts p.1 6))) =
      some ({4, 6}, {4}, .scan 6, true) := by
    decide +kernel
  obtain ⟨p, hp, he⟩ := Option.map_eq_some_iff.mp hrun
  simp only [Prod.mk.injEq, decide_eq_true_eq] at he
  obtain ⟨hclients, htouched, hloop, hacts⟩ := he
  have hinit : scanning.init (start 5, ⟨∅, start 0⟩) := ⟨⟨5, by decide, rfl⟩, rfl⟩
  have hreach : scanning.Reachable p :=
    (System.Reach.init hinit).exec (fun _ _ _ => trivial) hp
  obtain ⟨hfd, hfds, -⟩ := (table_kept hreach).2.2.2 6 hloop hacts
  exact ⟨p, hp, hclients, htouched, hfd, hfds⟩

end ShareBike.PollServer
