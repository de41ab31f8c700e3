import ShareBike.CommLoop
import ShareBike.Echo

/-!
# When timeouts fire

A deadline is computed from `sys_curtime`, which `comm_select` refreshes after the
handlers have run. Between two refreshes `epoll_wait` blocks for a second at most,
so the cached time is at most one second old, and no timeout fires more than a
second early. Before the first refresh `sys_curtime` is 0: what is set then has
expired at the next scan.
-/
namespace ShareBike.Comm
open ShareBike.Lib

variable {H D : Type} {s : LoopServer H D} {c : Framework H D}

/-- Whenever `checkTimeouts` called a handler, a timeout was in force, and its time
had come, give or take a second. -/
def NeverEarly (s : LoopServer H D) : Prop :=
  ∀ e ∈ s.app.fired, ∃ set, e.1 = some set ∧ (set.second : ℤ) + set.timeout - 1 ≤ e.2

/-- A timeout longer than the second of slack. -/
def Call.SetsLong : Call H D → Prop
  | commSetTimeout _ timeout _ _ => 2 ≤ timeout
  | _ => False

/-- No handler sets a timeout of two seconds or more while `sys_curtime` is still 0,
unless the clock's second is 0 or 1. -/
def Refreshed (s : Loop.State H D) (a : Loop.Act H D) : Prop :=
  s.server.comm.sysCurtime = 0 → 2 ≤ s.server.comm.second →
    ∀ call ∈ a.calls.flatten, ¬ call.SetsLong

instance : (call : Call H D) → Decidable call.SetsLong
  | .commSetTimeout .. => inferInstanceAs (Decidable (_ ≤ _))
  | .commUpdateReadHandler .. => .isFalse not_false
  | .commUpdateWriteHandler .. => .isFalse not_false
  | .epollSetEvents .. => .isFalse not_false
  | .commClose .. => .isFalse not_false
  | .accept _ => .isFalse not_false

instance (s : Loop.State H D) (a : Loop.Act H D) : Decidable (Refreshed s a) :=
  inferInstanceAs (Decidable (_ → _ → _))

/-- An armed entry belongs to a timeout in force and fires after it, or that time
has already come. -/
def Due (second : ℕ) (f : Fde H D) (setting : Option Setting) : Prop :=
  f.timeoutHandler.isSome → ∃ set, setting = some set ∧
    ((set.second : ℤ) + set.timeout - 1 ≤ f.timeout ∨ (set.second : ℤ) + set.timeout - 1 ≤ second)

lemma Due.of_none {second : ℕ} {f : Fde H D} (h : f.timeoutHandler = none)
    (setting : Option Setting) : Due second f setting := by
  intro hs
  rw [h] at hs
  cases hs

lemma Due.mono {second second' : ℕ} {f : Fde H D} {setting : Option Setting}
    (h : Due second f setting) (hle : second ≤ second') : Due second' f setting := by
  intro hs
  obtain ⟨set, hset, hdue⟩ := h hs
  refine ⟨set, hset, hdue.imp id fun hlt => ?_⟩
  omega

lemma Due.update {second : ℕ} {table : ℕ → Fde H D} {setting : ℕ → Option Setting}
    (h : ∀ g, Due second (table g) (setting g)) (fd : ℕ) {f : Fde H D} {o : Option Setting}
    (hf : Due second f o) (g : ℕ) :
    Due second (Function.update table fd f g) (Function.update setting fd o g) := by
  by_cases hg : g = fd
  · subst hg
    rw [Function.update_self, Function.update_self]
    exact hf
  · rw [Function.update_of_ne hg, Function.update_of_ne hg]
    exact h g

/-- The timeouts of a server whose clocks are those of `c`. -/
structure Timed (c : Framework H D) (s : LoopServer H D) : Prop where
  frame : c.Frame s.comm
  due : ∀ fd, Due c.second (s.comm.fdTable fd) (s.app.setting fd)
  fired : NeverEarly s

lemma Timed.second (h : Timed c s) : s.comm.second = c.second := by
  rw [Framework.second, h.frame.clock]
  rfl

lemma Timed.keep_entry (h : Timed c s) {fd : ℕ} {f : Fde H D}
    (hh : f.timeoutHandler = (s.comm.fdTable fd).timeoutHandler)
    (ht : f.timeout = (s.comm.fdTable fd).timeout) (g : ℕ) :
    Due c.second (Function.update s.comm.fdTable fd f g) (s.app.setting g) := by
  have hf : Due c.second f (s.app.setting fd) := by
    have hdue := h.due fd
    rw [Due, ← hh, ← ht] at hdue
    exact hdue
  have hup := Due.update h.due fd hf g
  rwa [Function.update_eq_self] at hup

/-- A timeout that is set while the cached time is at most a second old. -/
lemma Timed.commSetTimeout (h : Timed c s) (fd : ℕ) {t : ℤ} (hdl : Option H) (d : Option D)
    (hfresh : 2 ≤ t → c.second ≤ c.sysCurtime + 1) :
    Timed c ((Call.commSetTimeout fd t hdl d).run s) := by
  refine ⟨h.frame.trans (Call.frame_run _ s), ?_, h.fired⟩
  by_cases hneg : t < 0
  · have htable : ((Call.commSetTimeout fd t hdl d).run s).comm.fdTable =
        Function.update s.comm.fdTable fd { s.comm.fdTable fd with
          timeoutHandler := none, timeoutData := none, timeout := 0 } := by
      simp only [Call.run, Framework.commSetTimeout]
      rw [if_pos hneg]
      rfl
    rw [htable]
    exact Due.update h.due fd (.of_none rfl _)
  · obtain ⟨f, hf, htable⟩ : ∃ f : Fde H D, f.timeout = c.sysCurtime + t ∧
        ((Call.commSetTimeout fd t hdl d).run s).comm.fdTable =
          Function.update s.comm.fdTable fd f := by
      refine ⟨_, ?_, by
        simp only [Call.run, Framework.commSetTimeout]
        rw [if_neg hneg]
        rfl⟩
      simp only [h.frame.sysCurtime]
    have hset : ((Call.commSetTimeout fd t hdl d).run s).app.setting =
        Function.update s.app.setting fd (some ⟨c.second, t⟩) := by
      simp only [Call.run, Framework.settingOf]
      rw [if_neg hneg, h.second]
    rw [htable, hset]
    refine Due.update h.due fd fun _ => ⟨_, rfl, ?_⟩
    show (c.second : ℤ) + t - 1 ≤ f.timeout ∨ (c.second : ℤ) + t - 1 ≤ c.second
    by_cases hlong : 2 ≤ t
    · have hold := hfresh hlong
      exact .inl (by omega)
    · exact .inr (by omega)

/-- The calls that are made while the cached time is fresh. -/
def InTime (c : Framework H D) (call : Call H D) : Prop :=
  call.SetsLong → c.second ≤ c.sysCurtime + 1

lemma keepsScan_timed (hsys : c.sysCurtime ≤ c.second) : KeepsScan (InTime c) (Timed c) where
  keeps := {
    run := by
      intro call s hin _ h
      have hframe := h.frame.trans (call.frame_run s)
      cases call with
      | commSetTimeout fd t hdl d => exact h.commSetTimeout fd hdl d hin
      | commUpdateReadHandler fd hdl d ok =>
        refine ⟨hframe, ?_, h.fired⟩
        simp only [Call.run, Framework.commUpdateReadHandler_fdTable]
        exact h.keep_entry rfl rfl
      | commUpdateWriteHandler fd hdl d ok =>
        refine ⟨hframe, ?_, h.fired⟩
        simp only [Call.run, Framework.commUpdateWriteHandler_fdTable]
        exact h.keep_entry rfl rfl
      | epollSetEvents fd r w ok =>
        refine ⟨hframe, ?_, h.fired⟩
        simp only [Call.run, Framework.epollSetEvents_fdTable]
        exact h.due
      | commClose fd ok =>
        refine ⟨hframe, ?_, h.fired⟩
        simp only [Call.run, Framework.commClose_fdTable]
        exact Due.update h.due fd (.of_none rfl _)
      | accept fd => exact ⟨hframe, h.due, h.fired⟩
    load := fun _ _ h => ⟨h.frame, h.due, h.fired⟩
    abort := fun _ h => ⟨h.frame, h.due, h.fired⟩
    access := fun fd s _ h => ⟨h.frame.trans ⟨rfl, rfl, rfl, rfl⟩, h.due, h.fired⟩ }
  expire := by
    intro fd s h hsome hle
    refine ⟨h.frame.trans (s.comm.frame_setFde fd _), Due.update h.due fd (.of_none rfl _), ?_⟩
    intro e he
    rcases List.mem_cons.mp he with rfl | he
    · obtain ⟨set, hset, hdue⟩ := h.due fd hsome
      have hcur := h.frame.sysCurtime
      refine ⟨set, hset, ?_⟩
      show (set.second : ℤ) + set.timeout - 1 ≤ s.comm.second
      rw [h.second]
      omega
    · exact h.fired e he
  close := by
    intro fd s h
    refine ⟨h.frame.trans (s.comm.frame_commClose fd true), ?_, h.fired⟩
    intro g
    simp only [Framework.commClose_fdTable]
    have hup := Due.update h.due fd (f := Fde.zero) (.of_none rfl (s.app.setting fd)) g
    rwa [Function.update_eq_self] at hup
  timer := fun _ s h => ⟨h.frame.trans ⟨rfl, rfl, rfl, rfl⟩, h.due, h.fired⟩

lemma beforeWait_le (s : LoopServer H D) :
    (s.beforeWait Script.invokeTimeout 1000).1 ≤ 1000 := by
  simp only [Server.beforeWait]
  split_ifs <;> omega

/-- Between two calls of `comm_select` the cached time is that of the clock; within
one it is at most a second old. Before the first refresh it is 0. -/
structure Ticking (s : Loop.State H D) : Prop where
  due : ∀ fd, Due s.server.comm.second (s.server.comm.fdTable fd) (s.server.app.setting fd)
  fired : NeverEarly s.server
  cached : s.server.comm.sysCurtime = s.server.comm.currentDtime / 1000000
  past : s.server.comm.currentDtime ≤ s.server.comm.clock
  idle : s.pending = none → s.server.comm.currentDtime = 0 ∨
    s.server.comm.clock = s.server.comm.currentDtime
  age : s.server.comm.currentDtime = 0 ∨
    s.server.comm.clock ≤ s.server.comm.currentDtime + 1000000

namespace Ticking

variable {s s' : Loop.State H D}

lemma timed (h : Ticking s) : Timed s.server.comm s.server :=
  ⟨⟨rfl, rfl, rfl, rfl⟩, h.due, h.fired⟩

lemma sysCurtime_le (h : Ticking s) :
    s.server.comm.sysCurtime ≤ s.server.comm.second := by
  rw [h.cached]
  exact Nat.div_le_div_right h.past

lemma keepsScan (h : Ticking s) :
    KeepsScan (InTime s.server.comm) (Timed s.server.comm) := keepsScan_timed h.sysCurtime_le

/-- Once the time was refreshed, every call is in time. -/
lemma inTime (h : Ticking s) {a : Loop.Act H D} (hok : Refreshed s a) :
    ∀ call ∈ a.calls.flatten, InTime s.server.comm call := by
  intro call hcall hlong
  by_contra hold
  have hcached := h.cached
  rw [Framework.second] at hold
  rcases h.age with hzero | hage
  · rw [hzero] at hcached
    refine hok (by omega) ?_ call hcall hlong
    rw [Framework.second]
    omega
  · omega

lemma wait (h : Ticking s) (hidle : s.pending = none) {server : LoopServer H D}
    (ht : Timed s.server.comm server) {elapsed : ℕ} (hle : elapsed ≤ 1000000)
    (evs : List (ℕ × Events)) :
    Ticking ⟨Loop.setClock server (server.comm.clock + elapsed), some evs⟩ := by
  have hclock := ht.frame.clock
  have hdtime := ht.frame.currentDtime
  have hsys := ht.frame.sysCurtime
  have hpast := h.past
  refine ⟨?_, ht.fired, ?_, ?_, ?_, ?_⟩
  · intro fd
    refine (ht.due fd).mono ?_
    show s.server.comm.clock / 1000000 ≤ (server.comm.clock + elapsed) / 1000000
    exact Nat.div_le_div_right (by omega)
  · show server.comm.sysCurtime = server.comm.currentDtime / 1000000
    rw [hsys, hdtime, h.cached]
  · show server.comm.currentDtime ≤ server.comm.clock + elapsed
    omega
  · intro hp
    cases hp
  · show server.comm.currentDtime = 0 ∨
      server.comm.clock + elapsed ≤ server.comm.currentDtime + 1000000
    rcases h.idle hidle with hzero | heq
    · exact .inl (by omega)
    · exact .inr (by omega)

lemma dispatch (h : Ticking s) {server : LoopServer H D}
    (ht : Timed s.server.comm server) (evs : List (ℕ × Events)) :
    Ticking ⟨server, some evs⟩ := by
  have hclock := ht.frame.clock
  have hdtime := ht.frame.currentDtime
  refine ⟨?_, ht.fired, ?_, ?_, ?_, ?_⟩
  · intro fd
    rw [ht.second]
    exact ht.due fd
  · rw [ht.frame.sysCurtime, hdtime, h.cached]
  · rw [hclock, hdtime]
    exact h.past
  · intro hp
    cases hp
  · rw [hclock, hdtime]
    exact h.age

lemma done (h : Ticking s) :
    Ticking ⟨{ s.server with comm := s.server.comm.getCurrentTime }, none⟩ :=
  ⟨h.due, h.fired, rfl, Nat.le_refl _, fun _ => .inr rfl, .inr (Nat.le_add_right _ _)⟩

lemma step (h : Ticking s) {a : Loop.Act H D} (hok : Refreshed s a)
    (hs : Loop.step s a = some s') : Ticking s' := by
  cases a with
  | wait calls evs elapsed =>
    have hin : ∀ call ∈ calls.flatten, InTime s.server.comm call := h.inTime hok
    have hmsec := beforeWait_le (Script.load calls s.server)
    have htimed := h.keepsScan.beforeWait h.timed hin 1000
    obtain ⟨hidle, r, hr, -, helapsed, rfl⟩ := Loop.step_wait hs
    rw [hr] at hmsec htimed
    exact h.wait hidle htimed (by omega) evs
  | dispatch calls =>
    have hin : ∀ call ∈ calls.flatten, InTime s.server.comm call := h.inTime hok
    obtain ⟨fd, ev, evs, -, rfl⟩ := Loop.step_dispatch hs
    exact h.dispatch (h.keepsScan.keeps.dispatch h.timed hin trivial ev) evs
  | done =>
    rw [Loop.step_done hs]
    exact h.done

lemma start (m : Loop.Setup H D) : Ticking (Loop.start m) := by
  have hdtime : (Loop.start m).server.comm.currentDtime = 0 := (Loop.frame_start m).currentDtime
  have hsys : (Loop.start m).server.comm.sysCurtime = 0 := (Loop.frame_start m).sysCurtime
  refine ⟨?_, ?_, ?_, ?_, fun _ => .inl hdtime, .inl hdtime⟩
  · intro fd
    refine .of_none ?_ _
    simp only [Loop.start, Framework.commUpdateReadHandler_fdTable]
    rw [Function.update_apply]
    split <;> rfl
  · intro e he
    cases he
  · rw [hsys, hdtime]
  · rw [hdtime]
    exact Nat.zero_le _

end Ticking

/-- In every run in which no handler sets a timeout of two seconds or more before the
first `getCurrentTime`, no timeout fires more than a second early. -/
theorem timeout_never_early {s : Loop.State H D} (h : (loop H D).Reach Refreshed s) :
    NeverEarly s.server := by
  have hticking : Ticking s := by
    refine h.invariant ?_ fun s a s' hi hok hs => hi.step hok hs
    rintro _ ⟨m, -, rfl⟩
    exact Ticking.start m
  exact hticking.fired

/-- `main`, with the clock at 1700000000 seconds. -/
def mainSetup : Loop.Setup Echo.Handler ℕ where
  maxFd := 102400
  listenSock := 3
  handler := .acceptConnection
  data := some 0
  isOpen := fun fd => fd = 0 ∨ fd = 3
  clock := 1700000000000000
  ok := true

/-- A client that connects in the second round, and says nothing for two seconds. -/
def silentClient : List (Loop.Act Echo.Handler ℕ) :=
  [.wait [] [] 0, .done, .wait [] [(3, ⟨true, false, false, false⟩)] 500000,
    .dispatch [[.accept 4,
      .commUpdateWriteHandler 4 (some .doWelcomeHandler) (some 1) true,
      .commSetTimeout 4 2 (some .doEchoTimeout) (some 1)]],
    .done, .wait [] [] 500000, .done, .wait [] [] 1000000, .done,
    .wait [[.commClose 4 true]] [] 0]

def smallSetup : Loop.Setup Echo.Handler ℕ := { mainSetup with maxFd := 8, clock := 1000000000 }

theorem timeout_never_early_client : ∃ s, (loop Echo.Handler ℕ).Reach Refreshed s ∧
    s.server.app.fired = [(some ⟨1000, 2⟩, 1002)] ∧ NeverEarly s.server := by
  have hrun : (((loop Echo.Handler ℕ).guard Refreshed).exec (Loop.start smallSetup)
      silentClient).map (·.server.app.fired) = some [(some ⟨1000, 2⟩, 1002)] := by
    decide +kernel
  obtain ⟨s, hs, hfired⟩ := Option.map_eq_some_iff.mp hrun
  have hinit : (loop Echo.Handler ℕ).init (Loop.start smallSetup) := ⟨smallSetup, by
    rw [Loop.Setup.InTable, (Loop.frame_start smallSetup).biggestFd]
    decide, rfl⟩
  have hreach : (loop Echo.Handler ℕ).Reach Refreshed s :=
    (System.Reach.init hinit).exec_guard hs
  exact ⟨s, hreach, hfired, timeout_never_early hreach⟩

/-- The same server with other accesses. -/
def Server.withAccessed (s : LoopServer H D) (l : List ℕ) : LoopServer H D :=
  { s with comm := { s.comm with accessed := l } }

/-- A scan passes over entries without a timeout. -/
lemma scan_idle (fds : List ℕ) (hidle : ∀ fd ∈ fds, (s.comm.fdTable fd).timeout = 0) :
    ∃ l, fds.foldl (fun s fd => s.checkTimeout Script.invokeTimeout fd) s = s.withAccessed l := by
  induction fds generalizing s with
  | nil => exact ⟨s.comm.accessed, rfl⟩
  | cons fd fds ih =>
    have hfd : s.checkTimeout Script.invokeTimeout fd = s.access fd := by
      have hzero : ((s.access fd).comm.fdTable fd).timeout = 0 := hidle fd List.mem_cons_self
      simp only [Server.checkTimeout]
      rw [if_pos hzero]
    obtain ⟨l, hl⟩ := ih (s := s.access fd) fun g hg => hidle g (List.mem_cons_of_mem _ hg)
    refine ⟨l, ?_⟩
    rw [List.foldl_cons, hfd]
    exact hl

/-- A scan that finds a timeout at one descriptor only. -/
lemma checkTimeouts_single {k n : ℕ} (hn : s.comm.biggestFd = k + n)
    (hbefore : ∀ fd < k, (s.comm.fdTable fd).timeout = 0)
    (hafter : ∀ l, ∀ fd > k, (((s.withAccessed l).checkTimeout Script.invokeTimeout
      k).comm.fdTable fd).timeout = 0) :
    ∃ l l', s.checkTimeouts Script.invokeTimeout =
      Server.withAccessed ((s.withAccessed l).checkTimeout Script.invokeTimeout k) l' := by
  have hrange : List.range (s.comm.biggestFd + 1) =
      List.range k ++ k :: (List.range n).map (k + 1 + ·) := by
    rw [hn, Nat.add_assoc, Nat.add_comm n 1, List.range_add, List.range_add]
    simp [Nat.add_assoc]
  obtain ⟨l, hl⟩ := scan_idle (s := s) (List.range k) fun fd hfd =>
    hbefore fd (List.mem_range.mp hfd)
  obtain ⟨l', hl'⟩ := scan_idle (s := (s.withAccessed l).checkTimeout Script.invokeTimeout k)
    ((List.range n).map (k + 1 + ·)) (by
      intro fd hfd
      obtain ⟨i, -, rfl⟩ := List.mem_map.mp hfd
      exact hafter l _ (by omega))
  refine ⟨l, l', ?_⟩
  simp only [Server.checkTimeouts]
  rw [hrange, List.foldl_append, hl, List.foldl_cons, hl']

/-- A client connects while the server waits for the first time: `accept_connection`
gives it 30 seconds. -/
def firstRound : List (Loop.Act Echo.Handler ℕ) :=
  [.wait [] [(3, ⟨true, false, false, false⟩)] 0,
    .dispatch [[.accept 4,
      .commUpdateWriteHandler 4 (some .doWelcomeHandler) (some 1) true,
      .commSetTimeout 4 30 (some .doEchoTimeout) (some 1)]],
    .done]

/-- The state after the first round: the deadline of descriptor 4 is second 30. -/
def afterFirst : Loop.State Echo.Handler ℕ where
  server := {
    comm := {
      biggestFd := 102400
      fdTable := Function.update (Function.update (Function.update (fun _ => .zero)
        3 ⟨some .acceptConnection, some 0, none, none, none, 0, none⟩)
        4 ⟨none, none, some .doWelcomeHandler, some 1, none, 0, none⟩)
        4 ⟨none, none, some .doWelcomeHandler, some 1, some .doEchoTimeout, 30, some 1⟩
      epollState := Function.update (Function.update (fun _ => .zero)
        3 (.wanted true false)) 4 (.wanted false true)
      epollFds := 2
      interest := Function.update (Function.update (fun _ => none)
        3 (some (.wanted true false))) 4 (some (.wanted false true))
      isOpen := Function.update (fun fd => fd = 0 ∨ fd = 3) 4 true
      clock := 1700000000000000
      currentDtime := 1700000000000000
      sysCurtime := 1700000000
      lastTimeout := 0
      accessed := [4, 4, 4, 3, 3, 3] }
    app := {
      calls := []
      aborted := false
      setting := Function.update (fun _ => none) 4 (some ⟨1700000000, 30⟩)
      fired := [] } }
  pending := none

/-- The next scan calls `do_echo_timeout`, which closes the connection. -/
def secondWait : Loop.Act Echo.Handler ℕ := .wait [[.commClose 4 true]] [] 0

lemma exec_firstRound :
    (loop Echo.Handler ℕ).exec (Loop.start mainSetup) firstRound = some afterFirst := rfl

/-- The server at the beginning of that scan. -/
def expiredServer : LoopServer Echo.Handler ℕ :=
  { Script.load [[.commClose 4 true]] afterFirst.server with
    comm := { afterFirst.server.comm with lastTimeout := 1700000000000000 } }

lemma scan_afterFirst : ∃ l l', expiredServer.checkTimeouts Script.invokeTimeout =
    Server.withAccessed
      ((expiredServer.withAccessed l).checkTimeout Script.invokeTimeout 4) l' := by
  refine checkTimeouts_single (n := 102396) rfl (by decide) ?_
  intro l fd hfd
  have htable : ((expiredServer.withAccessed l).checkTimeout Script.invokeTimeout 4).comm.fdTable =
      Function.update (Function.update expiredServer.comm.fdTable 4
        ⟨none, none, some .doWelcomeHandler, some 1, none, 30, some 1⟩) 4 .zero := rfl
  have h4 : fd ≠ 4 := by omega
  have h3 : fd ≠ 3 := by omega
  rw [htable]
  simp [expiredServer, afterFirst, Function.update_of_ne h4, Function.update_of_ne h3, Fde.zero]

lemma step_secondWait : ∃ s, (loop Echo.Handler ℕ).step afterFirst secondWait = some s ∧
    s.server.app.fired = [(afterFirst.server.app.setting 4, 1700000000)] := by
  obtain ⟨l, l', hscan⟩ := scan_afterFirst
  have hwait : (Script.load [[.commClose 4 true]] afterFirst.server).beforeWait
      Script.invokeTimeout 1000 = (1000, Server.withAccessed
        ((expiredServer.withAccessed l).checkTimeout Script.invokeTimeout 4) l') := by
    rw [← hscan]
    simp only [Server.beforeWait]
    rw [if_pos (by decide)]
    rfl
  have hfired : (Server.withAccessed
      ((expiredServer.withAccessed l).checkTimeout Script.invokeTimeout 4) l').app.fired =
      [(afterFirst.server.app.setting 4, afterFirst.server.comm.second)] := rfl
  simp only [loop, Loop.step, secondWait]
  rw [hwait]
  exact ⟨_, rfl, hfired⟩

/-- The connection gets no second of its 30. -/
theorem timeout_fires_early :
    ∃ s, (loop Echo.Handler ℕ).Reachable s ∧ ¬ NeverEarly s.server := by
  have htable : mainSetup.InTable := by
    rw [Loop.Setup.InTable, (Loop.frame_start mainSetup).biggestFd]
    decide
  have hfirst : (loop Echo.Handler ℕ).Reachable afterFirst :=
    System.Reach.exec (.init ⟨mainSetup, htable, rfl⟩) (fun _ _ _ => trivial) exec_firstRound
  obtain ⟨s, hs, hfired⟩ := step_secondWait
  have hreach : (loop Echo.Handler ℕ).Reachable s := .step hfirst trivial hs
  refine ⟨s, hreach, fun hnever => ?_⟩
  rw [NeverEarly, hfired] at hnever
  obtain ⟨set, hset, hle⟩ := hnever _ List.mem_cons_self
  cases hset
  exact absurd hle (by decide)

end ShareBike.Comm
