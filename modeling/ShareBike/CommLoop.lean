import ShareBike.CommTable
import ShareBike.Lib.Transition

/-!
# The loop of `comm_select` with arbitrary handlers

`main` registers the listening socket and calls `comm_select(1000)` for ever. Here
nothing is fixed about the handlers: a handler that is called makes any calls of
the framework. The label of a step lists these calls, for each handler that is
called in the step, in the order in which they are called.

For every descriptor the state remembers the timeout that is in force, and which
timeout was in force whenever `checkTimeouts` called a handler.
-/
namespace ShareBike.Comm
open ShareBike.Lib

/-- A call that a handler makes; `ok` is the answer of `epoll_ctl`. -/
inductive Call (H D : Type)
  | commSetTimeout (fd : ℕ) (timeout : ℤ) (handler : Option H) (data : Option D)
  | commUpdateReadHandler (fd : ℕ) (handler : Option H) (data : Option D) (ok : Bool)
  | commUpdateWriteHandler (fd : ℕ) (handler : Option H) (data : Option D) (ok : Bool)
  | epollSetEvents (fd : ℕ) (needRead needWrite ok : Bool)
  | commClose (fd : ℕ) (ok : Bool)
  | accept (fd : ℕ)

/-- A timeout of `timeout` seconds that was set in the clock's second `second`. -/
structure Setting where
  second : ℕ
  timeout : ℤ
  deriving DecidableEq

/-- What the handlers of the step have still to do, and the timeouts. -/
structure Script (H D : Type) where
  calls : List (List (Call H D))
  aborted : Bool
  setting : ℕ → Option Setting
  fired : List (Option Setting × ℕ)

abbrev LoopServer (H D : Type) := Server H D (Script H D)

/-- `gettimeofday`, without the microseconds. -/
def Framework.second {H D : Type} (c : Framework H D) : ℕ := c.clock / 1000000

/-- A negative timeout clears the one that was set. -/
def Framework.settingOf {H D : Type} (c : Framework H D) (timeout : ℤ) : Option Setting :=
  if timeout < 0 then none else some ⟨c.second, timeout⟩

variable {H D : Type}

/-- The descriptor lies in the tables and the assertions of the function hold. -/
def Call.Asserts (c : Framework H D) : Call H D → Prop
  | commSetTimeout fd timeout handler _ => fd < c.biggestFd ∧
      (0 ≤ timeout → handler.isSome ∨ (c.fdTable fd).timeoutHandler.isSome)
  | commUpdateReadHandler fd .. => fd < c.biggestFd
  | commUpdateWriteHandler fd .. => fd < c.biggestFd
  | epollSetEvents fd .. => fd < c.biggestFd
  | commClose fd _ => 0 < fd ∧ fd < c.biggestFd
  | accept fd => c.isOpen fd = false

instance (c : Framework H D) : (call : Call H D) → Decidable (call.Asserts c)
  | .commSetTimeout .. => inferInstanceAs (Decidable (_ ∧ (_ → _ ∨ _)))
  | .commUpdateReadHandler .. => inferInstanceAs (Decidable (_ < _))
  | .commUpdateWriteHandler .. => inferInstanceAs (Decidable (_ < _))
  | .epollSetEvents .. => inferInstanceAs (Decidable (_ < _))
  | .commClose .. => inferInstanceAs (Decidable (_ ∧ _))
  | .accept _ => inferInstanceAs (Decidable (_ = _))

def Call.run (s : LoopServer H D) : Call H D → LoopServer H D
  | commSetTimeout fd timeout handler data =>
    { comm := s.comm.commSetTimeout fd timeout handler data
      app := { s.app with
        setting := Function.update s.app.setting fd (s.comm.settingOf timeout) } }
  | commUpdateReadHandler fd handler data ok =>
    { s with comm := s.comm.commUpdateReadHandler fd handler data ok }
  | commUpdateWriteHandler fd handler data ok =>
    { s with comm := s.comm.commUpdateWriteHandler fd handler data ok }
  | epollSetEvents fd needRead needWrite ok =>
    { s with comm := s.comm.epollSetEvents fd needRead needWrite ok }
  | commClose fd ok =>
    { comm := s.comm.commClose fd ok
      app := { s.app with setting := Function.update s.app.setting fd none } }
  | accept fd => { s with comm := { s.comm with isOpen := Function.update s.comm.isOpen fd true } }

namespace Script

/-- A failed assertion ends the program. -/
def abort (s : LoopServer H D) : LoopServer H D := { s with app := { s.app with aborted := true } }

def load (calls : List (List (Call H D))) (s : LoopServer H D) : LoopServer H D :=
  { s with app := { s.app with calls := calls } }

/-- The calls of one handler. -/
def perform : List (Call H D) → LoopServer H D → LoopServer H D
  | [], s => s
  | call :: calls, s => if call.Asserts s.comm then perform calls (call.run s) else abort s

/-- The next handler of the script is called. -/
def invoke : Invoke H D (Script H D) := fun _ _ _ s =>
  match s.app.calls with
  | calls :: rest => perform calls (load rest s)
  | [] => abort s

/-- `checkTimeouts` calls a handler, and the timeout is used up. -/
def invokeTimeout : Invoke H D (Script H D) := fun handler fd data s =>
  invoke handler fd data { s with app := { s.app with
    setting := Function.update s.app.setting fd none
    fired := (s.app.setting fd, s.comm.second) :: s.app.fired } }

/-- Every handler of the script was called, and no assertion failed. -/
def Done (s : LoopServer H D) : Prop := s.app.aborted = false ∧ s.app.calls.isEmpty = true

instance (s : LoopServer H D) : Decidable (Done s) := inferInstanceAs (Decidable (_ ∧ _))

end Script

namespace Loop

/-- The server, and the events of the current call of `comm_select` that are still
to be handled; `none` is the place between two calls. -/
structure State (H D : Type) where
  server : LoopServer H D
  pending : Option (List (ℕ × Events))

inductive Act (H D : Type)
  | wait (calls : List (List (Call H D))) (evs : List (ℕ × Events)) (elapsed : ℕ)
  | dispatch (calls : List (List (Call H D)))
  | done

/-- The calls that handlers make in the step. -/
def Act.calls : Act H D → List (List (Call H D))
  | wait calls _ _ => calls
  | dispatch calls => calls
  | done => []

def setClock (s : LoopServer H D) (clock : ℕ) : LoopServer H D :=
  { s with comm := { s.comm with clock := clock } }

/-- `epoll_wait` blocks for at most the milliseconds it was given. -/
def step (s : State H D) : Act H D → Option (State H D)
  | .wait calls evs elapsed =>
    match s.pending with
    | none =>
      let r := (Script.load calls s.server).beforeWait Script.invokeTimeout 1000
      if Script.Done r.2 ∧ Batch r.2.comm.interest evs ∧ (elapsed : ℤ) ≤ r.1 * 1000 then
        some ⟨setClock r.2 (r.2.comm.clock + elapsed), some evs⟩
      else none
    | some _ => none
  | .dispatch calls =>
    match s.pending with
    | some ((fd, ev) :: evs) =>
      let server := (Script.load calls s.server).dispatch Script.invoke fd ev
      if Script.Done server then some ⟨server, some evs⟩ else none
    | _ => none
  | .done =>
    match s.pending with
    | some [] => some ⟨{ s.server with comm := s.server.comm.getCurrentTime }, none⟩
    | _ => none

/-- What `main` passes to the framework, and what it finds. -/
structure Setup (H D : Type) where
  maxFd : ℤ
  listenSock : ℕ
  handler : H
  data : Option D
  isOpen : ℕ → Bool
  clock : ℕ
  ok : Bool

/-- After `comm_init` and the registration of the listening socket. -/
def start (m : Setup H D) : State H D where
  server := {
    comm := Framework.commUpdateReadHandler (.commInit m.maxFd.toNat m.isOpen m.clock)
      m.listenSock (some m.handler) m.data m.ok
    app := { calls := [], aborted := false, setting := fun _ => none, fired := [] } }
  pending := none

/-- The listening socket lies in the tables. -/
def Setup.InTable (m : Setup H D) : Prop := m.listenSock < (start m).server.comm.biggestFd

end Loop

/-- The runs of the loop. -/
def loop (H D : Type) : System (Loop.State H D) (Loop.Act H D) where
  init s := ∃ m : Loop.Setup H D, m.InTable ∧ s = Loop.start m
  step := Loop.step

variable {Q : Call H D → Prop} {F : ℕ → Prop} {P : LoopServer H D → Prop} {s : LoopServer H D}

/-- `P` survives the calls in `Q` and an access of a descriptor in `F`. -/
structure Keeps (Q : Call H D → Prop) (F : ℕ → Prop) (P : LoopServer H D → Prop) : Prop where
  run : ∀ call s, Q call → call.Asserts s.comm → P s → P (call.run s)
  load : ∀ calls s, P s → P (Script.load calls s)
  abort : ∀ s, P s → P (Script.abort s)
  access : ∀ fd s, F fd → P s → P (s.access fd)

/-- `P` holds, and the handlers of the script make no calls but those in `Q`. -/
def Scripted (Q : Call H D → Prop) (P : LoopServer H D → Prop) (s : LoopServer H D) : Prop :=
  P s ∧ ∀ calls ∈ s.app.calls, ∀ call ∈ calls, Q call

@[simp] lemma Call.run_calls (call : Call H D) (s : LoopServer H D) :
    (call.run s).app.calls = s.app.calls := by
  cases call <;> rfl

namespace Keeps

lemma perform (h : Keeps Q F P) {calls : List (Call H D)} (hcalls : ∀ call ∈ calls, Q call)
    (hs : Scripted Q P s) : Scripted Q P (Script.perform calls s) := by
  induction calls generalizing s with
  | nil => exact hs
  | cons call calls ih =>
    rw [Script.perform]
    split_ifs with hassert
    · refine ih (fun c hc => hcalls c (List.mem_cons_of_mem _ hc)) ⟨?_, ?_⟩
      · exact h.run call s (hcalls call List.mem_cons_self) hassert hs.1
      · rw [Call.run_calls]
        exact hs.2
    · exact ⟨h.abort s hs.1, hs.2⟩

lemma invoke (h : Keeps Q F P) (hdl : H) (fd : ℕ) (data : Option D) (hs : Scripted Q P s) :
    Scripted Q P (Script.invoke hdl fd data s) := by
  obtain ⟨hp, hq⟩ := hs
  rw [Script.invoke]
  split
  · rename_i calls rest hcalls
    rw [hcalls] at hq
    refine h.perform (hq calls List.mem_cons_self) ⟨h.load rest s hp, ?_⟩
    exact fun c hc => hq c (List.mem_cons_of_mem _ hc)
  · exact ⟨h.abort s hp, hq⟩

lemma scripted (h : Keeps Q F P) (hp : P s) {calls : List (List (Call H D))}
    (hcalls : ∀ call ∈ calls.flatten, Q call) : Scripted Q P (Script.load calls s) :=
  ⟨h.load calls s hp, fun c hc call hcall => hcalls call (List.mem_flatten.mpr ⟨c, hc, hcall⟩)⟩

/-- An event keeps what the calls of its handlers keep. -/
lemma dispatch (h : Keeps Q F P) (hp : P s) {calls : List (List (Call H D))}
    (hcalls : ∀ call ∈ calls.flatten, Q call) {fd : ℕ} (hfd : F fd) (ev : Events) :
    P ((Script.load calls s).dispatch Script.invoke fd ev) := by
  have hall : Scripted Q P ((Script.load calls s).dispatch Script.invoke fd ev) := by
    refine Server.dispatch_invariant ?_ ?_ (h.scripted hp hcalls) ev
    · exact fun s hs => ⟨h.access fd s hfd hs.1, hs.2⟩
    · exact fun hdl data s hs => h.invoke hdl fd data hs
  exact hall.1

end Keeps

/-- The place in `checkTimeouts` at which the handler is called. -/
def Script.expire (fd : ℕ) (s : LoopServer H D) : LoopServer H D where
  comm := s.comm.setFde fd { s.comm.fdTable fd with timeoutHandler := none }
  app := { s.app with
    setting := Function.update s.app.setting fd none
    fired := (s.app.setting fd, s.comm.second) :: s.app.fired }

/-- `P` survives the body of the loop of `checkTimeouts`. -/
structure KeepsCheck (Q : Call H D → Prop) (P : LoopServer H D → Prop) : Prop where
  keeps : Keeps Q (fun _ => True) P
  expire : ∀ fd s, P s → (s.comm.fdTable fd).timeoutHandler.isSome →
    (s.comm.fdTable fd).timeout ≤ s.comm.sysCurtime → P (Script.expire fd s)
  close : ∀ fd s, P s → P { s with comm := s.comm.commClose fd true }

/-- `P` also survives what comes before the loop. -/
structure KeepsScan (Q : Call H D → Prop) (P : LoopServer H D → Prop) : Prop
    extends KeepsCheck Q P where
  timer : ∀ n s, P s → P { s with comm := { s.comm with lastTimeout := n } }

namespace KeepsCheck

lemma checkTimeout_of_access (h : KeepsCheck Q P) {fd : ℕ} (hs : Scripted Q P (s.access fd)) :
    Scripted Q P (s.checkTimeout Script.invokeTimeout fd) := by
  have haccess : P (s.access fd) := hs.1
  simp only [Server.checkTimeout]
  split_ifs with hzero hlater
  · exact hs
  · exact hs
  · split
    · rename_i hdl hhdl
      have hexpired : P (Script.expire fd (s.access fd)) := by
        refine h.expire fd _ haccess ?_ (Int.not_lt.mp hlater)
        rw [hhdl]
        rfl
      exact h.keeps.invoke hdl fd _ ⟨hexpired, hs.2⟩
    · exact ⟨h.close fd _ haccess, hs.2⟩

lemma checkTimeout (h : KeepsCheck Q P) (fd : ℕ) (hs : Scripted Q P s) :
    Scripted Q P (s.checkTimeout Script.invokeTimeout fd) :=
  h.checkTimeout_of_access ⟨h.keeps.access fd s trivial hs.1, hs.2⟩

lemma checkTimeouts (h : KeepsCheck Q P) (hs : Scripted Q P s) :
    Scripted Q P (s.checkTimeouts Script.invokeTimeout) :=
  Server.checkTimeouts_invariant (fun _ fd hs => h.checkTimeout fd hs) hs

end KeepsCheck

lemma KeepsScan.beforeWait (h : KeepsScan Q P) (hp : P s) {calls : List (List (Call H D))}
    (hcalls : ∀ call ∈ calls.flatten, Q call) (msec : ℤ) :
    P ((Script.load calls s).beforeWait Script.invokeTimeout msec).2 := by
  have hall : Scripted Q P
      ((Script.load calls s).beforeWait Script.invokeTimeout msec).2 := by
    refine Server.beforeWait_invariant ?_ ?_ (h.keeps.scripted hp hcalls) msec
    · exact fun s fd hs => h.checkTimeout fd hs
    · exact fun s n hs => ⟨h.timer n s hs.1, hs.2⟩
  exact hall.1

namespace Loop

variable {s s' : State H D}

/-- `epoll_wait` is called with the timeout and in the state that `comm_select` has
reached. -/
lemma step_wait {calls : List (List (Call H D))} {evs : List (ℕ × Events)} {elapsed : ℕ}
    (hs : step s (.wait calls evs elapsed) = some s') : s.pending = none ∧
      ∃ r, (Script.load calls s.server).beforeWait Script.invokeTimeout 1000 = r ∧
        Batch r.2.comm.interest evs ∧ (elapsed : ℤ) ≤ r.1 * 1000 ∧
        s' = ⟨setClock r.2 (r.2.comm.clock + elapsed), some evs⟩ := by
  simp only [step] at hs
  split at hs
  · rename_i hidle
    split_ifs at hs with hwait
    cases hs
    exact ⟨hidle, _, rfl, hwait.2.1, hwait.2.2, rfl⟩
  · cases hs

lemma step_dispatch {calls : List (List (Call H D))} (hs : step s (.dispatch calls) = some s') :
    ∃ fd ev evs, s.pending = some ((fd, ev) :: evs) ∧
      s' = ⟨(Script.load calls s.server).dispatch Script.invoke fd ev, some evs⟩ := by
  simp only [step] at hs
  split at hs
  · rename_i fd ev evs hpending
    split_ifs at hs
    cases hs
    exact ⟨fd, ev, evs, hpending, rfl⟩
  · cases hs

lemma step_done (hs : step s .done = some s') :
    s' = ⟨{ s.server with comm := s.server.comm.getCurrentTime }, none⟩ := by
  simp only [step] at hs
  split at hs
  · cases hs
    rfl
  · cases hs

end Loop

/-- What the calls of handlers leave alone: the size of the tables and the clocks. -/
structure Framework.Frame (c c' : Framework H D) : Prop where
  biggestFd : c'.biggestFd = c.biggestFd
  clock : c'.clock = c.clock
  currentDtime : c'.currentDtime = c.currentDtime
  sysCurtime : c'.sysCurtime = c.sysCurtime

namespace Framework

variable (c : Framework H D) (fd : ℕ)

lemma frame_setFde (f : Fde H D) : c.Frame (c.setFde fd f) := ⟨rfl, rfl, rfl, rfl⟩

lemma frame_epollSetEvents (r w ok : Bool) : c.Frame (c.epollSetEvents fd r w ok) := by
  rw [epollSetEvents]
  split <;> exact ⟨rfl, rfl, rfl, rfl⟩

variable {c} in
lemma Frame.trans {c' c'' : Framework H D} (h : c.Frame c') (h' : c'.Frame c'') : c.Frame c'' :=
  ⟨h'.biggestFd.trans h.biggestFd, h'.clock.trans h.clock,
    h'.currentDtime.trans h.currentDtime, h'.sysCurtime.trans h.sysCurtime⟩

lemma frame_commClose (ok : Bool) : c.Frame (c.commClose fd ok) := by
  have h := (c.frame_setFde fd .zero).trans (frame_epollSetEvents _ fd false false ok)
  exact ⟨h.biggestFd, h.clock, h.currentDtime, h.sysCurtime⟩

lemma frame_commSetTimeout (t : ℤ) (hdl : Option H) (d : Option D) :
    c.Frame (c.commSetTimeout fd t hdl d) := by
  simp only [commSetTimeout]
  split <;> exact frame_setFde c fd _

end Framework

lemma Call.frame_run (call : Call H D) (s : LoopServer H D) : s.comm.Frame (call.run s).comm := by
  cases call with
  | commSetTimeout fd t hdl d => exact s.comm.frame_commSetTimeout fd t hdl d
  | commUpdateReadHandler fd hdl d ok | commUpdateWriteHandler fd hdl d ok =>
    exact (s.comm.frame_setFde fd _).trans (Framework.frame_epollSetEvents _ fd _ _ ok)
  | epollSetEvents fd r w ok => exact s.comm.frame_epollSetEvents fd r w ok
  | commClose fd ok => exact s.comm.frame_commClose fd ok
  | accept fd => exact ⟨rfl, rfl, rfl, rfl⟩

lemma Loop.frame_start (m : Loop.Setup H D) :
    (Framework.commInit m.maxFd.toNat m.isOpen m.clock : Framework H D).Frame
      (Loop.start m).server.comm :=
  (Framework.frame_setFde _ m.listenSock _).trans
    (Framework.frame_epollSetEvents _ m.listenSock true false m.ok)

/-- Every handler and every scan leaves the frame alone. -/
lemma keepsScan_frame (c : Framework H D) :
    KeepsScan (fun _ => True) fun s : LoopServer H D => c.Frame s.comm where
  keeps := {
    run := fun call s _ _ h => h.trans (call.frame_run s)
    load := fun _ _ h => h
    abort := fun _ h => h
    access := fun _ _ _ h => ⟨h.biggestFd, h.clock, h.currentDtime, h.sysCurtime⟩ }
  expire := fun fd s h _ _ => h.trans (s.comm.frame_setFde fd _)
  close := fun fd s h => h.trans (s.comm.frame_commClose fd true)
  timer := fun _ _ h => ⟨h.biggestFd, h.clock, h.currentDtime, h.sysCurtime⟩

end ShareBike.Comm
