import ShareBike.CommLoop
import Mathlib.Data.List.Chain

/-!
# The pace of `comm_select`

`comm_select` is called with any number of milliseconds. It scans the timeouts when
more than 0.999 seconds have passed since the last scan, and otherwise shortens the
wait to what is left of a second since then, truncated to milliseconds. At least one
millisecond is left, so it never spins, and the wait never passes the second.
-/
namespace ShareBike.Comm
open ShareBike.Lib

variable {H D : Type} {s : LoopServer H D}

/-- The test of `comm_select` by which it calls `checkTimeouts`. -/
def Framework.ScanDue (c : Framework H D) : Prop := c.lastTimeout + 999000 < c.currentDtime

instance (c : Framework H D) : Decidable c.ScanDue := inferInstanceAs (Decidable (_ < _))

namespace Select

inductive Act (H D : Type)
  | commSelect (msec : ℤ) (calls : List (List (Call H D))) (evs : List (ℕ × Events))
      (elapsed : ℕ)
  | dispatch (calls : List (List (Call H D)))
  | done

/-- Time passes only while `epoll_wait` blocks. -/
def step (s : Loop.State H D) : Act H D → Option (Loop.State H D)
  | .commSelect msec calls evs elapsed =>
    match s.pending with
    | none =>
      let r := (Script.load calls s.server).beforeWait Script.invokeTimeout msec
      if 1 ≤ msec ∧ Script.Done r.2 ∧ Batch r.2.comm.interest evs ∧
          (elapsed : ℤ) ≤ r.1 * 1000 then
        some ⟨Loop.setClock r.2 (r.2.comm.clock + elapsed), some evs⟩
      else none
    | some _ => none
  | .dispatch calls => Loop.step s (.dispatch calls)
  | .done => Loop.step s .done

/-- After `comm_init` the program makes any calls of the framework. -/
def start (maxFd : ℤ) (isOpen : ℕ → Bool) (clock : ℕ) (calls : List (Call H D)) :
    Loop.State H D where
  server := Script.perform calls
    { comm := .commInit maxFd.toNat isOpen clock
      app := { calls := [], aborted := false, setting := fun _ => none, fired := [] } }
  pending := none

/-- The timeouts that were passed to `epoll_wait`, and the clock at each run of
`checkTimeouts`, the latest first. -/
structure Timing where
  timeouts : List ℤ
  scans : List ℕ
  deriving DecidableEq

def record (s : Loop.State H D) : Act H D → Timing → Timing
  | .commSelect msec calls _ _, h =>
    ⟨((Script.load calls s.server).beforeWait Script.invokeTimeout msec).1 :: h.timeouts,
      if s.server.comm.ScanDue then s.server.comm.clock :: h.scans else h.scans⟩
  | .dispatch _, h => h
  | .done, h => h

end Select

/-- The runs in which `comm_select` is called with at least one millisecond. -/
def select (H D : Type) : System (Loop.State H D) (Select.Act H D) where
  init s := ∃ maxFd isOpen clock calls, s = Select.start maxFd isOpen clock calls ∧
    s.server.app.aborted = false
  step := Select.step

lemma Framework.epollSetEvents_lastTimeout (c : Framework H D) (fd : ℕ) (r w ok : Bool) :
    (c.epollSetEvents fd r w ok).lastTimeout = c.lastTimeout := by
  rw [epollSetEvents]
  split <;> rfl

lemma Call.run_lastTimeout (call : Call H D) (s : LoopServer H D) :
    (call.run s).comm.lastTimeout = s.comm.lastTimeout := by
  cases call with
  | commSetTimeout fd t hdl d =>
    simp only [Call.run, Framework.commSetTimeout]
    split <;> rfl
  | commUpdateReadHandler fd hdl d ok | commUpdateWriteHandler fd hdl d ok =>
    exact Framework.epollSetEvents_lastTimeout _ fd _ _ ok
  | epollSetEvents fd r w ok => exact Framework.epollSetEvents_lastTimeout _ fd r w ok
  | commClose fd ok => exact Framework.epollSetEvents_lastTimeout _ fd false false ok
  | accept fd => rfl

/-- The clocks and `last_timeout` are those of `c`. -/
structure Framework.Clocks (c c' : Framework H D) : Prop where
  frame : c.Frame c'
  lastTimeout : c'.lastTimeout = c.lastTimeout

/-- Handlers and the scan leave the clocks and `last_timeout` alone. -/
lemma keepsCheck_clocks (c : Framework H D) :
    KeepsCheck (fun _ => True) fun s : LoopServer H D => c.Clocks s.comm where
  keeps := {
    run := fun call s _ _ h =>
      ⟨h.frame.trans (call.frame_run s), (call.run_lastTimeout s).trans h.lastTimeout⟩
    load := fun _ _ h => h
    abort := fun _ h => h
    access := fun fd s _ h => ⟨(keepsScan_frame c).keeps.access fd s trivial h.frame,
      h.lastTimeout⟩ }
  expire := fun fd s h _ _ => ⟨h.frame.trans (s.comm.frame_setFde fd _), h.lastTimeout⟩
  close := fun fd s h => ⟨h.frame.trans (s.comm.frame_commClose fd true),
    (Framework.epollSetEvents_lastTimeout _ fd false false true).trans h.lastTimeout⟩

/-- Where the scan is due it runs, and the wait is not shortened. -/
lemma beforeWait_of_due (hdue : s.comm.ScanDue) (calls : List (List (Call H D))) (msec : ℤ) :
    ((Script.load calls s).beforeWait Script.invokeTimeout msec).1 = min msec 1000 ∧
      s.comm.Frame ((Script.load calls s).beforeWait Script.invokeTimeout msec).2.comm ∧
      ((Script.load calls s).beforeWait Script.invokeTimeout msec).2.comm.lastTimeout =
        s.comm.currentDtime := by
  have htest : (Script.load calls s).comm.lastTimeout + 999000 <
      (Script.load calls s).comm.currentDtime := hdue
  set s₁ : LoopServer H D := { Script.load calls s with
    comm := { (Script.load calls s).comm with
      lastTimeout := (Script.load calls s).comm.currentDtime } } with hs₁
  have hscan : s₁.comm.Clocks (s₁.checkTimeouts Script.invokeTimeout).comm :=
    ((keepsCheck_clocks s₁.comm).checkTimeouts
      ⟨⟨⟨rfl, rfl, rfl, rfl⟩, rfl⟩, fun _ _ _ _ => trivial⟩).1
  simp only [Server.beforeWait]
  rw [if_pos htest]
  refine ⟨?_, ?_, hscan.lastTimeout⟩
  · dsimp only
    split_ifs <;> omega
  · exact ⟨hscan.frame.biggestFd, hscan.frame.clock, hscan.frame.currentDtime,
      hscan.frame.sysCurtime⟩

/-- Otherwise nothing happens before the wait, which is shortened. -/
lemma beforeWait_of_not_due (hdue : ¬ s.comm.ScanDue) (calls : List (List (Call H D)))
    (msec : ℤ) :
    (Script.load calls s).beforeWait Script.invokeTimeout msec =
      (min (min msec 1000)
        (((s.comm.lastTimeout : ℤ) + 1000000 - s.comm.currentDtime).tdiv 1000),
        Script.load calls s) := by
  have htest : ¬ (Script.load calls s).comm.lastTimeout + 999000 <
      (Script.load calls s).comm.currentDtime := hdue
  have hmin : ∀ left : ℤ, (if left < (if msec > 1000 then 1000 else msec) then left
      else if msec > 1000 then 1000 else msec) = min (min msec 1000) left := by
    intro left
    split_ifs <;> omega
  simp only [Server.beforeWait]
  rw [if_neg htest]
  exact Prod.ext (hmin _) rfl

/-- What is left of the second since the last scan, in whole milliseconds. -/
lemma rest_bounds {last now : ℕ} (h : ¬ last + 999000 < now) :
    1 ≤ ((last : ℤ) + 1000000 - now).tdiv 1000 ∧
      ((last : ℤ) + 1000000 - now).tdiv 1000 * 1000 ≤ (last : ℤ) + 1000000 - now := by
  have hpos : (0 : ℤ) ≤ (last : ℤ) + 1000000 - now := by omega
  rw [Int.tdiv_eq_ediv_of_nonneg hpos]
  omega

/-- The gap between two runs of `checkTimeouts`. -/
def SecondApart (later earlier : ℕ) : Prop :=
  earlier + 999000 < later ∧ later ≤ earlier + 1000000

namespace Select

/-- What the pace rests on: `last_timeout` is the clock of the last scan, which is at most
a second ago, and between two calls the cached time is the clock. -/
structure Paced (p : Loop.State H D × Timing) : Prop where
  timeouts : ∀ t ∈ p.2.timeouts, 1 ≤ t ∧ t ≤ 1000
  apart : p.2.scans.IsChain SecondApart
  last : p.1.server.comm.lastTimeout = p.2.scans.head?.getD 0
  recent : p.2.scans ≠ [] → p.1.server.comm.clock ≤ p.1.server.comm.lastTimeout + 1000000
  cached : p.1.pending = none → p.1.server.comm.currentDtime = p.1.server.comm.clock ∨
    p.1.server.comm.currentDtime = 0 ∧ p.2.scans = []

variable {s s' : Loop.State H D} {h : Timing}

lemma step_commSelect {msec : ℤ} {calls : List (List (Call H D))} {evs : List (ℕ × Events)}
    {elapsed : ℕ} (hs : step s (.commSelect msec calls evs elapsed) = some s') :
    s.pending = none ∧ 1 ≤ msec ∧
      ∃ r, (Script.load calls s.server).beforeWait Script.invokeTimeout msec = r ∧
        (elapsed : ℤ) ≤ r.1 * 1000 ∧
        s' = ⟨Loop.setClock r.2 (r.2.comm.clock + elapsed), some evs⟩ := by
  simp only [step] at hs
  split at hs
  · rename_i hidle
    split_ifs at hs with hwait
    cases hs
    exact ⟨hidle, hwait.1, _, rfl, hwait.2.2.2, rfl⟩
  · cases hs

/-- A call that scans: the scan is in time, and the wait ends within a second. -/
lemma Paced.scan (hp : Paced (s, h)) (hidle : s.pending = none) (hdue : s.server.comm.ScanDue)
    {msec timeout : ℤ} (hmsec : 1 ≤ msec) (htimeout : timeout = min msec 1000)
    {server : LoopServer H D} (hframe : s.server.comm.Frame server.comm)
    (hlast : server.comm.lastTimeout = s.server.comm.currentDtime) {elapsed : ℕ}
    (helapsed : (elapsed : ℤ) ≤ timeout * 1000) (evs : List (ℕ × Events)) :
    Paced (⟨Loop.setClock server (server.comm.clock + elapsed), some evs⟩,
      ⟨timeout :: h.timeouts, s.server.comm.clock :: h.scans⟩) := by
  have hclock := hframe.clock
  have hnow : s.server.comm.currentDtime = s.server.comm.clock := by
    refine (hp.cached hidle).resolve_right ?_
    rintro ⟨hzero, -⟩
    have hlt : s.server.comm.lastTimeout + 999000 < s.server.comm.currentDtime := hdue
    have hzero' : s.server.comm.currentDtime = 0 := hzero
    omega
  refine ⟨List.forall_mem_cons.mpr ⟨by omega, hp.timeouts⟩, ?_, ?_, fun _ => ?_, ?_⟩
  · refine List.isChain_cons.mpr ⟨fun earlier hearlier => ?_, hp.apart⟩
    have hprev : s.server.comm.lastTimeout = earlier := by
      have hlast := hp.last
      have hhead : h.scans.head? = some earlier := hearlier
      simp only [hhead, Option.getD_some] at hlast
      exact hlast
    have hrecent : s.server.comm.clock ≤ s.server.comm.lastTimeout + 1000000 := by
      refine hp.recent fun hnil => ?_
      have hscans : h.scans = [] := hnil
      rw [hscans] at hearlier
      cases hearlier
    have hlt : s.server.comm.lastTimeout + 999000 < s.server.comm.currentDtime := hdue
    unfold SecondApart
    omega
  · show server.comm.lastTimeout = s.server.comm.clock
    rw [hlast, hnow]
  · show server.comm.clock + elapsed ≤ server.comm.lastTimeout + 1000000
    omega
  · intro hpending
    cases hpending

/-- A call that does not: the wait ends within the second since the last scan. -/
lemma Paced.wait (hp : Paced (s, h)) (hidle : s.pending = none)
    (hdue : ¬ s.server.comm.ScanDue) {msec timeout : ℤ} (hmsec : 1 ≤ msec)
    (htimeout : timeout = min (min msec 1000)
      (((s.server.comm.lastTimeout : ℤ) + 1000000 - s.server.comm.currentDtime).tdiv 1000))
    {server : LoopServer H D} (hcomm : server.comm = s.server.comm) {elapsed : ℕ}
    (helapsed : (elapsed : ℤ) ≤ timeout * 1000) (evs : List (ℕ × Events)) :
    Paced (⟨Loop.setClock server (server.comm.clock + elapsed), some evs⟩,
      ⟨timeout :: h.timeouts, h.scans⟩) := by
  obtain ⟨hone, hrest⟩ := rest_bounds hdue
  refine ⟨List.forall_mem_cons.mpr ⟨by omega, hp.timeouts⟩, hp.apart, ?_, fun hscans => ?_, ?_⟩
  · show server.comm.lastTimeout = _
    rw [hcomm]
    exact hp.last
  · have hnow : s.server.comm.currentDtime = s.server.comm.clock :=
      (hp.cached hidle).resolve_right fun hnone => hscans hnone.2
    show server.comm.clock + elapsed ≤ server.comm.lastTimeout + 1000000
    rw [hcomm]
    omega
  · intro hpending
    cases hpending

/-- Nothing but `comm_select` itself touches the clocks. -/
lemma Paced.clocks (hp : Paced (s, h)) {server : LoopServer H D}
    (hclocks : s.server.comm.Clocks server.comm) (evs : List (ℕ × Events)) :
    Paced (⟨server, some evs⟩, h) := by
  refine ⟨hp.timeouts, hp.apart, hclocks.lastTimeout.trans hp.last, fun hscans => ?_, ?_⟩
  · show server.comm.clock ≤ server.comm.lastTimeout + 1000000
    rw [hclocks.frame.clock, hclocks.lastTimeout]
    exact hp.recent hscans
  · intro hpending
    cases hpending

lemma Paced.step (hp : Paced (s, h)) {a : Act H D} (hs : Select.step s a = some s') :
    Paced (s', record s a h) := by
  cases a with
  | commSelect msec calls evs elapsed =>
    obtain ⟨hidle, hmsec, r, rfl, helapsed, rfl⟩ := step_commSelect hs
    simp only [record]
    by_cases hdue : s.server.comm.ScanDue
    · obtain ⟨htimeout, hframe, hlast⟩ := beforeWait_of_due hdue calls msec
      rw [if_pos hdue]
      exact hp.scan hidle hdue hmsec htimeout hframe hlast helapsed evs
    · have hwait := beforeWait_of_not_due hdue calls msec
      rw [if_neg hdue, hwait]
      rw [hwait] at helapsed
      have hload : (Script.load calls s.server).comm = s.server.comm := rfl
      exact hp.wait hidle hdue hmsec rfl hload helapsed evs
  | dispatch calls =>
    obtain ⟨fd, ev, evs, -, rfl⟩ := Loop.step_dispatch hs
    refine hp.clocks ?_ evs
    exact (keepsCheck_clocks s.server.comm).keeps.dispatch ⟨⟨rfl, rfl, rfl, rfl⟩, rfl⟩
      (fun _ _ => trivial) trivial ev
  | done =>
    rw [Loop.step_done hs]
    exact ⟨hp.timeouts, hp.apart, hp.last, hp.recent, fun _ => .inl rfl⟩

lemma Paced.start (maxFd : ℤ) (isOpen : ℕ → Bool) (clock : ℕ) (calls : List (Call H D)) :
    Paced (Select.start maxFd isOpen clock calls, ⟨[], []⟩) := by
  have hclocks : (Framework.commInit maxFd.toNat isOpen clock).Clocks
      (Select.start maxFd isOpen clock calls).server.comm :=
    ((keepsCheck_clocks (Framework.commInit maxFd.toNat isOpen clock)).keeps.perform
      (fun _ _ => trivial)
      ⟨⟨⟨rfl, rfl, rfl, rfl⟩, rfl⟩, fun _ _ _ _ => trivial⟩).1
  refine ⟨fun _ ht => ?_, .nil, hclocks.lastTimeout, fun hne => absurd rfl hne, fun _ => .inr
    ⟨hclocks.frame.currentDtime, rfl⟩⟩
  cases ht

end Select

/-- In every run of `comm_select`, with any numbers of milliseconds and any handlers, the
timeout of `epoll_wait` is between 1 and 1000, and from the first scan on each scan
follows the one before by more than 0.999 seconds and by one second at most. -/
theorem select_paced {s : Loop.State H D} {h : Select.Timing}
    (hr : ((select H D).withHistory ⟨[], []⟩ Select.record).Reachable (s, h)) :
    (∀ t ∈ h.timeouts, 1 ≤ t ∧ t ≤ 1000) ∧ h.scans.IsChain SecondApart := by
  have hpaced : Select.Paced (s, h) := by
    refine hr.invariant ?_ ?_
    · rintro ⟨_, _⟩ ⟨⟨maxFd, isOpen, clock, calls, rfl, -⟩, rfl⟩
      exact Select.Paced.start maxFd isOpen clock calls
    · rintro ⟨s, h⟩ a ⟨s', h'⟩ hp - hstep
      obtain ⟨hs, rfl⟩ := System.withHistory_step.mp hstep
      exact hp.step hs
  exact ⟨hpaced.timeouts, hpaced.apart⟩

/-- The calls of `comm_select` around a second: the wait is cut to what is left of it. -/
def aroundSecond : List (Select.Act ℕ ℕ) :=
  [.commSelect 1000 [] [] 0, .done, .commSelect 5000 [] [] 400500, .done,
    .commSelect 1000 [] [] 598000, .done, .commSelect 7 [] [] 1000, .done,
    .commSelect 3 [] [] 0]

theorem select_paced_around : ∃ s h,
    ((select ℕ ℕ).withHistory ⟨[], []⟩ Select.record).Reachable (s, h) ∧
    h = ⟨[3, 1, 599, 1000, 1000], [1000999500, 1000000000]⟩ ∧ h.scans.IsChain SecondApart := by
  have hrun : (((select ℕ ℕ).withHistory ⟨[], []⟩ Select.record).exec
      (Select.start 8 (fun _ => false) 1000000000 [], ⟨[], []⟩) aroundSecond).map Prod.snd =
        some ⟨[3, 1, 599, 1000, 1000], [1000999500, 1000000000]⟩ := by
    decide +kernel
  obtain ⟨⟨s, h⟩, hs, hh⟩ := Option.map_eq_some_iff.mp hrun
  have hinit : (select ℕ ℕ).init (Select.start 8 (fun _ => false) 1000000000 []) :=
    ⟨8, fun _ => false, 1000000000, [], rfl, rfl⟩
  have hreach : ((select ℕ ℕ).withHistory ⟨[], []⟩ Select.record).Reachable (s, h) :=
    System.Reach.exec (.init ⟨hinit, rfl⟩) (fun _ _ _ => trivial) hs
  exact ⟨s, h, hreach, hh, (select_paced hreach).2⟩

end ShareBike.Comm
