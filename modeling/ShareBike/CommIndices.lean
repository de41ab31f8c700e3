import ShareBike.CommLoop

/-!
# Where the tables are read and written

`fd_table` and `epoll_state` have `Biggest_FD` entries. Registrations, timeouts,
closes and events stay below `Biggest_FD`; the scan of `checkTimeouts` runs up to
`Biggest_FD` itself and reads one entry too many.
-/
namespace ShareBike.Comm
open ShareBike.Lib

variable {H D : Type}

namespace Framework

variable (c : Framework H D) (fd : ℕ)

@[simp] lemma setFde_accessed (f : Fde H D) : (c.setFde fd f).accessed = fd :: c.accessed := rfl

@[simp] lemma epollSetEvents_accessed (r w ok : Bool) :
    (c.epollSetEvents fd r w ok).accessed = fd :: c.accessed := by
  rw [epollSetEvents]
  split <;> rfl

@[simp] lemma commClose_accessed (ok : Bool) :
    (c.commClose fd ok).accessed = fd :: fd :: c.accessed := by
  show ((c.setFde fd .zero).epollSetEvents fd false false ok).accessed = fd :: fd :: c.accessed
  rw [epollSetEvents_accessed, setFde_accessed]

@[simp] lemma commSetTimeout_accessed (t : ℤ) (hdl : Option H) (d : Option D) :
    (c.commSetTimeout fd t hdl d).accessed = fd :: c.accessed := by
  simp only [commSetTimeout]
  split <;> rfl

@[simp] lemma commUpdateReadHandler_accessed (hdl : Option H) (d : Option D) (ok : Bool) :
    (c.commUpdateReadHandler fd hdl d ok).accessed = fd :: fd :: c.accessed := by
  rw [commUpdateReadHandler, epollSetEvents_accessed, setFde_accessed]

@[simp] lemma commUpdateWriteHandler_accessed (hdl : Option H) (d : Option D) (ok : Bool) :
    (c.commUpdateWriteHandler fd hdl d ok).accessed = fd :: fd :: c.accessed := by
  rw [commUpdateWriteHandler, epollSetEvents_accessed, setFde_accessed]

end Framework

/-- The indices used so far and the registered descriptors lie below `b`, the size
of the tables. -/
structure Below (b : ℕ) (c : Framework H D) : Prop where
  biggestFd : c.biggestFd = b
  accessed : ∀ i ∈ c.accessed, i < b
  registered : ∀ fd, c.interest fd ≠ none → fd < b

namespace Below

variable {b fd : ℕ} {c : Framework H D}

lemma setFde (h : Below b c) (hfd : fd < b) (f : Fde H D) : Below b (c.setFde fd f) :=
  ⟨h.biggestFd, List.forall_mem_cons.mpr ⟨hfd, h.accessed⟩, h.registered⟩

lemma epollSetEvents (h : Below b c) (hfd : fd < b) (r w ok : Bool) :
    Below b (c.epollSetEvents fd r w ok) := by
  refine ⟨(c.frame_epollSetEvents fd r w ok).biggestFd.trans h.biggestFd, ?_, ?_⟩
  · rw [Framework.epollSetEvents_accessed]
    exact List.forall_mem_cons.mpr ⟨hfd, h.accessed⟩
  · intro g hg
    by_cases hgf : g = fd
    · exact hgf ▸ hfd
    · rw [c.epollSetEvents_interest_of_ne fd r w ok hgf] at hg
      exact h.registered g hg

lemma commClose (h : Below b c) (hfd : fd < b) (ok : Bool) : Below b (c.commClose fd ok) := by
  have hset := (h.setFde hfd .zero).epollSetEvents hfd false false ok
  refine ⟨hset.biggestFd, hset.accessed, ?_⟩
  intro g hg
  by_cases hgf : g = fd
  · exact hgf ▸ hfd
  · rw [c.commClose_interest_of_ne fd ok hgf] at hg
    exact h.registered g hg

lemma commSetTimeout (h : Below b c) (hfd : fd < b) (t : ℤ) (hdl : Option H) (d : Option D) :
    Below b (c.commSetTimeout fd t hdl d) := by
  simp only [Framework.commSetTimeout]
  split <;> exact h.setFde hfd _

lemma setClock {s : LoopServer H D} (h : Below b s.comm) (clock : ℕ) :
    Below b (Loop.setClock s clock).comm := ⟨h.biggestFd, h.accessed, h.registered⟩

end Below

/-- What handlers keep as long as no scan runs. -/
lemma keeps_below (b : ℕ) :
    Keeps (fun _ => True) (· < b) fun s : LoopServer H D => Below b s.comm where
  run := by
    intro call s _ hassert h
    have hb := h.biggestFd
    cases call with
    | commSetTimeout fd t hdl d => exact h.commSetTimeout (hb ▸ hassert.1) t hdl d
    | commUpdateReadHandler fd hdl d ok | commUpdateWriteHandler fd hdl d ok =>
      have hfd : fd < b := hb ▸ hassert
      exact (h.setFde hfd _).epollSetEvents hfd _ _ ok
    | epollSetEvents fd r w ok => exact h.epollSetEvents (hb ▸ hassert) r w ok
    | commClose fd ok => exact h.commClose (hb ▸ hassert.2) ok
    | accept fd => exact ⟨hb, h.accessed, h.registered⟩
  load := fun _ _ h => h
  abort := fun _ h => h
  access := fun _ _ hfd h =>
    ⟨h.biggestFd, List.forall_mem_cons.mpr ⟨hfd, h.accessed⟩, h.registered⟩

/-- An index that was used stays recorded. -/
lemma keepsScan_accessed (i : ℕ) :
    KeepsScan (fun _ => True) fun s : LoopServer H D => i ∈ s.comm.accessed where
  keeps := {
    run := by
      intro call s _ _ h
      cases call <;> simp [Call.run, h]
    load := fun _ _ h => h
    abort := fun _ h => h
    access := fun _ _ _ h => List.mem_cons_of_mem _ h }
  expire := fun _ _ h _ _ => List.mem_cons_of_mem _ h
  close := by
    intro fd s h
    simp [h]
  timer := fun _ _ h => h

/-- The last step of the scan reads the entry after the table. -/
lemma scan_reads (s : LoopServer H D) :
    s.comm.biggestFd ∈ (s.checkTimeouts Script.invokeTimeout).comm.accessed := by
  simp only [Server.checkTimeouts]
  rw [List.range_succ, List.foldl_append]
  refine ((keepsScan_accessed s.comm.biggestFd).checkTimeout_of_access ⟨?_, ?_⟩).1
  · exact List.mem_cons_self
  · exact fun _ _ _ _ => trivial

lemma beforeWait_noScan {s : LoopServer H D} (calls : List (List (Call H D)))
    (hno : ¬ s.comm.lastTimeout + 999000 < s.comm.currentDtime) :
    ((Script.load calls s).beforeWait Script.invokeTimeout 1000).2 = Script.load calls s := by
  have hno' : ¬ (Script.load calls s).comm.lastTimeout + 999000 <
      (Script.load calls s).comm.currentDtime := hno
  simp only [Server.beforeWait]
  rw [if_neg hno']

lemma beforeWait_scan_reads {s : LoopServer H D} (calls : List (List (Call H D)))
    (hscan : s.comm.lastTimeout + 999000 < s.comm.currentDtime) :
    s.comm.biggestFd ∈
      ((Script.load calls s).beforeWait Script.invokeTimeout 1000).2.comm.accessed := by
  have hscan' : (Script.load calls s).comm.lastTimeout + 999000 <
      (Script.load calls s).comm.currentDtime := hscan
  simp only [Server.beforeWait]
  rw [if_pos hscan']
  exact scan_reads { Script.load calls s with
    comm := { s.comm with lastTimeout := s.comm.currentDtime } }

/-- Every index used lies in `0 .. Biggest_FD - 1`. -/
def InRange (s : Loop.State H D) : Prop :=
  ∀ i ∈ s.server.comm.accessed, i < s.server.comm.biggestFd

/-- `comm_select` does not call `checkTimeouts`. -/
def NoScan (s : Loop.State H D) : Loop.Act H D → Prop
  | .wait .. => ¬ s.server.comm.lastTimeout + 999000 < s.server.comm.currentDtime
  | _ => True

/-- A run of the loop that has kept to the tables. -/
structure Within (b : ℕ) (s : Loop.State H D) : Prop where
  below : Below b s.server.comm
  pending : ∀ evs, s.pending = some evs → ∀ e ∈ evs, e.1 < b

namespace Within

variable {b : ℕ} {s s' : Loop.State H D}

lemma inRange (h : Within b s) : InRange s := by
  intro i hi
  rw [h.below.biggestFd]
  exact h.below.accessed i hi

lemma step (h : Within b s) {a : Loop.Act H D} (hok : NoScan s a)
    (hs : Loop.step s a = some s') : Within b s' := by
  cases a with
  | wait calls evs elapsed =>
    have hserver := beforeWait_noScan calls hok
    obtain ⟨-, r, hr, hbatch, -, rfl⟩ := Loop.step_wait hs
    rw [hr] at hserver
    rw [hserver] at hbatch ⊢
    refine ⟨h.below.setClock _, ?_⟩
    rintro _ ⟨rfl⟩ e he
    obtain ⟨-, ev, hev, -⟩ := hbatch.2.2 e he
    refine h.below.registered e.1 fun hnone => ?_
    have hsome : s.server.comm.interest e.1 = some ev := hev
    rw [hnone] at hsome
    cases hsome
  | dispatch calls =>
    obtain ⟨fd, ev, evs, hpending, rfl⟩ := Loop.step_dispatch hs
    have hfd : fd < b := h.pending _ hpending (fd, ev) List.mem_cons_self
    refine ⟨(keeps_below b).dispatch h.below (fun _ _ => trivial) hfd ev, ?_⟩
    rintro _ ⟨rfl⟩ e he
    exact h.pending _ hpending e (List.mem_cons_of_mem _ he)
  | done =>
    rw [Loop.step_done hs]
    refine ⟨⟨h.below.biggestFd, h.below.accessed, h.below.registered⟩, ?_⟩
    rintro _ ⟨⟩

lemma start (m : Loop.Setup H D) (hm : m.InTable) :
    Within (Loop.start m).server.comm.biggestFd (Loop.start m) := by
  have hinit : Below (Loop.start m).server.comm.biggestFd
      (Framework.commInit m.maxFd.toNat m.isOpen m.clock : Framework H D) := by
    refine ⟨(Loop.frame_start m).biggestFd.symm, ?_, fun fd hfd => absurd rfl hfd⟩
    intro i hi
    cases hi
  refine ⟨(hinit.setFde hm _).epollSetEvents hm true false m.ok, ?_⟩
  rintro _ ⟨⟩

end Within

lemma beforeWait_biggestFd (s : LoopServer H D) (calls : List (List (Call H D))) :
    ((Script.load calls s).beforeWait Script.invokeTimeout 1000).2.comm.biggestFd =
      s.comm.biggestFd :=
  ((keepsScan_frame s.comm).beforeWait ⟨rfl, rfl, rfl, rfl⟩
    (fun call (_ : call ∈ calls.flatten) => trivial) 1000).biggestFd

/-- A scan leaves the tables. -/
lemma scan_leaves {s s' : Loop.State H D} {a : Loop.Act H D} (hno : ¬ NoScan s a)
    (hs : Loop.step s a = some s') : ¬ InRange s' := by
  cases a with
  | wait calls evs elapsed =>
    have hscan : s.server.comm.lastTimeout + 999000 < s.server.comm.currentDtime := by
      by_contra hnot
      exact hno hnot
    have hread := beforeWait_scan_reads calls hscan
    have hsize := beforeWait_biggestFd s.server calls
    obtain ⟨-, r, hr, -, -, rfl⟩ := Loop.step_wait hs
    rw [hr] at hread hsize
    intro hin
    have hlt : s.server.comm.biggestFd < r.2.comm.biggestFd := hin _ hread
    omega
  | dispatch calls | done => exact absurd trivial hno

/-- In a run of the loop every index used with the tables lies in their range, in
every state, exactly if no step of the run scans for timeouts. -/
theorem indices_in_range_iff (m : Loop.Setup H D) (hm : m.InTable) (acts : List (Loop.Act H D)) :
    (loop H D).Throughout InRange (Loop.start m) acts ↔
      (loop H D).Along NoScan (Loop.start m) acts :=
  System.throughout_iff_along (I := Within (Loop.start m).server.comm.biggestFd)
    (fun _ h => h.inRange) (fun _ _ _ h hok hs => h.step hok hs)
    (fun _ _ _ _ hno hs => scan_leaves hno hs) (.start m hm) acts

def fourFds : Loop.Setup Unit Unit where
  maxFd := 4
  listenSock := 3
  handler := ()
  data := none
  isOpen := fun fd => fd = 0 ∨ fd = 3
  clock := 1000000
  ok := true

lemma fourFds_inTable : fourFds.InTable := by
  rw [Loop.Setup.InTable, (Loop.frame_start fourFds).biggestFd]
  decide

theorem indices_in_range_iff_four : fourFds.InTable ∧
    (loop Unit Unit).Throughout InRange (Loop.start fourFds)
      [.wait [] [(3, ⟨true, false, false, false⟩)] 0,
        .dispatch [[.commUpdateReadHandler 3 (some ()) none true]], .done] := by
  refine ⟨fourFds_inTable, (indices_in_range_iff fourFds fourFds_inTable _).mpr ?_⟩
  have hfirst : ¬ (Loop.start fourFds).server.comm.lastTimeout + 999000 <
      (Loop.start fourFds).server.comm.currentDtime := by
    decide
  exact fun _ _ => ⟨hfirst, fun _ _ => ⟨trivial, fun _ _ => ⟨trivial, trivial⟩⟩⟩

/-- The second call of `comm_select` scans, and reads `fd_table[4]`. -/
theorem index_out_of_range :
    ∃ s, (loop Unit Unit).Reachable s ∧ 4 ∈ s.server.comm.accessed ∧ ¬ InRange s := by
  have hrun : ((loop Unit Unit).exec (Loop.start fourFds)
      [.wait [] [] 0, .done, .wait [] [] 0]).map
        (fun s => (s.server.comm.accessed, s.server.comm.biggestFd)) =
      some ([4, 3, 2, 1, 0, 3, 3], 4) := by
    decide +kernel
  obtain ⟨s, hs, hidx⟩ := Option.map_eq_some_iff.mp hrun
  obtain ⟨hacc, hbig⟩ := Prod.mk.inj hidx
  have hmem : 4 ∈ s.server.comm.accessed := by
    rw [hacc]
    exact List.mem_cons_self
  refine ⟨s, System.Reach.exec (.init ⟨fourFds, fourFds_inTable, rfl⟩) (fun _ _ _ => trivial) hs,
    hmem, fun hin => ?_⟩
  have hlt := hin 4 hmem
  rw [hbig] at hlt
  exact absurd hlt (Nat.lt_irrefl 4)

end ShareBike.Comm
