import ShareBike.Lib.Transition
import Mathlib.Data.Fintype.Basic
import Mathlib.Data.Int.Notation
import Mathlib.Logic.Function.Basic

/-!
# Processes around one System V semaphore

Any number of processes run `main`: each gets the semaphore with the key 1234, sets
it to 1 if it was started with an argument, and then takes and releases it for ever
around its critical section. The kernel's side is the semaphore's value and, for
each process, the adjustment that `SEM_UNDO` makes when the process ends. A process
may be killed at any point, and any call may fail, after which the process exits.
-/
namespace ShareBike.Semaphore
open ShareBike.Lib

/-- The place of a process; `acquire` is before `sem_p`, `entering` after it. -/
inductive Pc
  | absent
  | get
  | initial
  | acquire
  | entering
  | inside
  | leaving
  | dead
  deriving DecidableEq, Repr

/-- `semval` is `none` until `semget` creates the semaphore. -/
structure State (P : Type) where
  semval : Option ℤ
  semadj : P → ℤ
  pc : P → Pc
  argument : P → Bool

/-- `SEMVMX` -/
def SEMVMX : ℤ := 32767

inductive Act (P : Type)
  | start (p : P) (argument : Bool)
  | semget (p : P) (ok : Bool)
  | semInitial (p : P) (ok : Bool)
  | semP (p : P) (ok : Bool)
  | printIn (p : P)
  | printOut (p : P)
  | semV (p : P) (ok : Bool)
  | kill (p : P)
  deriving DecidableEq

variable {P : Type} [DecidableEq P] (s : State P) (p : P)

namespace State

def goto (pc : Pc) : State P := { s with pc := Function.update s.pc p pc }

/-- The process ends, and the kernel undoes its operations; the value stays in its
range. -/
def exit : State P where
  semval := s.semval.map fun v => max 0 (min SEMVMX (v + s.semadj p))
  semadj := Function.update s.semadj p 0
  pc := Function.update s.pc p .dead
  argument := s.argument

/-- `semop` with `SEM_UNDO`. -/
def semop (op v : ℤ) : State P :=
  { s with
    semval := some (v + op)
    semadj := Function.update s.semadj p (s.semadj p - op) }

/-- `semctl(semid, 0, SETVAL, 1)`, which clears the adjustments of all processes. -/
def setval : State P := { s with semval := some 1, semadj := fun _ => 0 }

/-- `semget(1234, 1, 0666 | IPC_CREAT)`; a new semaphore has the value 0. -/
def semget : State P := { s with semval := some (s.semval.getD 0) }

end State

/-- One step of a process. `sem_p` blocks while the value is 0. -/
def step : Act P → Option (State P)
  | .start p argument =>
    if s.pc p = .absent then
      some { s.goto p .get with argument := Function.update s.argument p argument }
    else none
  | .semget p ok =>
    if s.pc p = .get then
      if ok then some (s.semget.goto p (if s.argument p then .initial else .acquire))
      else some (s.exit p)
    else none
  | .semInitial p ok =>
    if s.pc p = .initial then
      if ok then some (s.setval.goto p .acquire) else some (s.exit p)
    else none
  | .semP p ok =>
    if s.pc p = .acquire then
      if ok then
        match s.semval with
        | some v => if 0 < v then some ((s.semop p (-1) v).goto p .entering) else none
        | none => none
      else some (s.exit p)
    else none
  | .printIn p => if s.pc p = .entering then some (s.goto p .inside) else none
  | .printOut p => if s.pc p = .inside then some (s.goto p .leaving) else none
  | .semV p ok =>
    if s.pc p = .leaving then
      if ok then
        match s.semval with
        | some v => if v < SEMVMX then some ((s.semop p 1 v).goto p .acquire) else none
        | none => none
      else some (s.exit p)
    else none
  | .kill p => if s.pc p ≠ .absent ∧ s.pc p ≠ .dead then some (s.exit p) else none

def start (P : Type) : State P where
  semval := none
  semadj _ := 0
  pc _ := .absent
  argument _ := false

def system (P : Type) [DecidableEq P] : System (State P) (Act P) where
  init s := s = start P
  step := step

/-- Between `sem_p` and `sem_v`. -/
def Pc.holds : Pc → Bool
  | entering => true
  | inside => true
  | leaving => true
  | _ => false

/-- At most one process is between its two lines of output. -/
def Exclusive (s : State P) : Prop := ∀ p q, s.pc p = .inside → s.pc q = .inside → p = q

/-- `sem_initial` resets the semaphore only while no process holds it. -/
def ResetsFree (s : State P) : Act P → Prop
  | .semInitial _ ok => ok = true → ∀ q, (s.pc q).holds = false
  | _ => True

instance [Fintype P] (s : State P) : (a : Act P) → Decidable (ResetsFree s a)
  | .semInitial .. => inferInstanceAs (Decidable (_ → _))
  | .start .. | .semget .. | .semP .. | .printIn _ | .printOut _ | .semV .. | .kill _ =>
    .isTrue trivial

/-- The semaphore is a lock: its value is 0 or 1, it is 0 while a process holds it, and
each process owes the kernel what it holds. -/
structure Locked (s : State P) : Prop where
  adj : ∀ p, s.semadj p = if (s.pc p).holds then 1 else 0
  one : ∀ p q, (s.pc p).holds = true → (s.pc q).holds = true → p = q
  created : s.semval = none → ∀ p, (s.pc p).holds = false
  value : ∀ v, s.semval = some v → v = 0 ∨ v = 1 ∧ ∀ p, (s.pc p).holds = false

namespace Locked

variable {s : State P} {p : P}

omit [DecidableEq P] in
lemma exclusive (h : Locked s) : Exclusive s := by
  intro p q hp hq
  exact h.one p q (by rw [hp]; rfl) (by rw [hq]; rfl)

lemma holds_goto {pc : Pc} (hpc : pc.holds = (s.pc p).holds) (q : P) :
    ((s.goto p pc).pc q).holds = (s.pc q).holds := by
  show (Function.update s.pc p pc q).holds = (s.pc q).holds
  by_cases hq : q = p
  · subst hq
    rw [Function.update_self, hpc]
  · rw [Function.update_of_ne hq]

/-- A step between two places that both hold the semaphore, or both do not. -/
lemma goto (h : Locked s) {pc : Pc} (hpc : pc.holds = (s.pc p).holds) : Locked (s.goto p pc) := by
  have hsame := holds_goto (s := s) hpc
  refine ⟨?_, ?_, ?_, ?_⟩
  · intro q
    rw [hsame]
    exact h.adj q
  · intro q q' hq hq'
    rw [hsame] at hq hq'
    exact h.one q q' hq hq'
  · intro hnone q
    rw [hsame]
    exact h.created hnone q
  · intro v hv
    refine (h.value v hv).imp id fun hone => ⟨hone.1, fun q => ?_⟩
    rw [hsame]
    exact hone.2 q

omit [DecidableEq P] in
lemma semget (h : Locked s) : Locked s.semget := by
  refine ⟨h.adj, h.one, ?_, ?_⟩
  · rintro ⟨⟩
  · rintro _ ⟨rfl⟩
    cases hv : s.semval with
    | none => exact .inl rfl
    | some v => exact h.value v hv

omit [DecidableEq P] in
/-- While nobody holds the semaphore it may be set to 1. -/
lemma setval (h : Locked s) (hfree : ∀ q, (s.pc q).holds = false) : Locked s.setval := by
  refine ⟨?_, h.one, ?_, ?_⟩
  · intro q
    rw [if_neg (by simp [State.setval, hfree q])]
    rfl
  · rintro ⟨⟩
  · rintro _ ⟨rfl⟩
    exact .inr ⟨rfl, hfree⟩

/-- `sem_p` finds the value 1, so nobody held the semaphore. -/
lemma semP (h : Locked s) {v : ℤ} (hv : s.semval = some v) (hpos : 0 < v) :
    Locked ((s.semop p (-1) v).goto p .entering) := by
  have hone : v = 1 ∧ ∀ q, (s.pc q).holds = false := by
    refine (h.value v hv).resolve_left ?_
    omega
  obtain ⟨rfl, hfree⟩ := hone
  have honly : ∀ q, (Function.update s.pc p Pc.entering q).holds = true ↔ q = p := by
    intro q
    by_cases hq : q = p
    · subst hq
      simp [Pc.holds]
    · simp [hfree q, hq]
  refine ⟨?_, ?_, ?_, ?_⟩
  · intro q
    show Function.update s.semadj p (s.semadj p - -1) q =
      if (Function.update s.pc p Pc.entering q).holds then 1 else 0
    by_cases hq : q = p
    · subst hq
      rw [if_pos ((honly q).mpr rfl), Function.update_self, h.adj q, hfree q]
      rfl
    · rw [if_neg (fun hh => hq ((honly q).mp hh)), Function.update_of_ne hq, h.adj q, hfree q]
      rfl
  · intro q q' hq hq'
    exact ((honly q).mp hq).trans ((honly q').mp hq').symm
  · rintro ⟨⟩
  · rintro _ ⟨rfl⟩
    exact .inl rfl

/-- The holder gives the semaphore back: by `sem_v`, or by its end. -/
lemma giveBack (h : Locked s) (hp : (s.pc p).holds = true) (pc : Pc) (hpc : pc.holds = false)
    {s' : State P} (hval : s'.semval = some 1)
    (hadj : s'.semadj = Function.update s.semadj p 0) (hpcs : s'.pc = Function.update s.pc p pc) :
    Locked s' := by
  have hfree : ∀ q, (s'.pc q).holds = false := by
    intro q
    rw [hpcs]
    by_cases hq : q = p
    · subst hq
      rw [Function.update_self, hpc]
    · rw [Function.update_of_ne hq, ← Bool.not_eq_true]
      exact fun hh => hq (h.one q p hh hp)
  refine ⟨?_, ?_, ?_, ?_⟩
  · intro q
    rw [hfree q, hadj]
    by_cases hq : q = p
    · subst hq
      exact Function.update_self ..
    · have hnot : (s.pc q).holds = false := by
        rw [← Bool.not_eq_true]
        exact fun hh => hq (h.one q p hh hp)
      rw [Function.update_of_ne hq, h.adj q, hnot]
  · intro q q' hq _
    rw [hfree q] at hq
    cases hq
  · rw [hval]
    rintro ⟨⟩
  · intro v hv
    rw [hval] at hv
    cases hv
    exact .inr ⟨rfl, hfree⟩

omit [DecidableEq P] in
lemma value_of_holds (h : Locked s) (hp : (s.pc p).holds = true) : s.semval = some 0 := by
  cases hv : s.semval with
  | none =>
    rw [h.created hv p] at hp
    cases hp
  | some v =>
    rcases h.value v hv with rfl | ⟨-, hfree⟩
    · rfl
    · rw [hfree p] at hp
      cases hp

lemma exit (h : Locked s) : Locked (s.exit p) := by
  cases hp : (s.pc p).holds with
  | true =>
    refine h.giveBack hp .dead rfl ?_ rfl rfl
    have hadj := h.adj p
    rw [hp] at hadj
    simp only [State.exit, h.value_of_holds hp, hadj]
    rfl
  | false =>
    have hadj := h.adj p
    rw [hp] at hadj
    have hval : (s.exit p).semval = s.semval := by
      simp only [State.exit, hadj]
      cases hv : s.semval with
      | none => rfl
      | some v => rcases h.value v hv with rfl | ⟨rfl, -⟩ <;> rfl
    have hkeep : Function.update s.semadj p 0 = s.semadj := by
      rw [Function.update_eq_self_iff]
      exact hadj.symm
    have hgoto : Locked (s.goto p .dead) := h.goto (by rw [hp]; rfl)
    have heq : s.exit p = s.goto p .dead := by
      rw [State.goto, ← hval]
      simp only [State.exit, hkeep]
    rw [heq]
    exact hgoto

lemma semV (h : Locked s) (hp : (s.pc p).holds = true) {v : ℤ} (hv : s.semval = some v) :
    Locked ((s.semop p 1 v).goto p .acquire) := by
  have hzero := h.value_of_holds hp
  rw [hv] at hzero
  cases hzero
  have hadj := h.adj p
  rw [hp] at hadj
  refine h.giveBack hp .acquire rfl rfl ?_ rfl
  simp only [State.goto, State.semop, hadj]
  rfl

lemma step {s' : State P} (h : Locked s) {a : Act P} (hok : ResetsFree s a)
    (hs : Semaphore.step s a = some s') : Locked s' := by
  cases a with
  | start p argument =>
    obtain ⟨hpc, he⟩ := Option.ite_none_right_eq_some.mp hs
    cases he
    have hgoto : Locked (s.goto p .get) := h.goto (by rw [hpc]; rfl)
    exact ⟨hgoto.adj, hgoto.one, hgoto.created, hgoto.value⟩
  | semget p ok =>
    obtain ⟨hpc, he⟩ := Option.ite_none_right_eq_some.mp hs
    cases ok with
    | true =>
      cases he
      refine h.semget.goto ?_
      show (if s.argument p then Pc.initial else Pc.acquire).holds = (s.pc p).holds
      rw [hpc]
      split <;> rfl
    | false =>
      cases he
      exact h.exit
  | semInitial p ok =>
    obtain ⟨hpc, he⟩ := Option.ite_none_right_eq_some.mp hs
    cases ok with
    | true =>
      cases he
      refine (h.setval (hok rfl)).goto ?_
      show Pc.acquire.holds = (s.pc p).holds
      rw [hpc]
      rfl
    | false =>
      cases he
      exact h.exit
  | semP p ok =>
    obtain ⟨-, he⟩ := Option.ite_none_right_eq_some.mp hs
    cases ok with
    | true =>
      simp only [if_true] at he
      split at he
      · rename_i v hv
        obtain ⟨hpos, he⟩ := Option.ite_none_right_eq_some.mp he
        cases he
        exact h.semP hv hpos
      · cases he
    | false =>
      cases he
      exact h.exit
  | printIn p | printOut p =>
    obtain ⟨hpc, he⟩ := Option.ite_none_right_eq_some.mp hs
    cases he
    exact h.goto (by rw [hpc]; rfl)
  | semV p ok =>
    obtain ⟨hpc, he⟩ := Option.ite_none_right_eq_some.mp hs
    cases ok with
    | true =>
      simp only [if_true] at he
      split at he
      · rename_i v hv
        obtain ⟨-, he⟩ := Option.ite_none_right_eq_some.mp he
        cases he
        exact h.semV (by rw [hpc]; rfl) hv
      · cases he
    | false =>
      cases he
      exact h.exit
  | kill p =>
    obtain ⟨-, he⟩ := Option.ite_none_right_eq_some.mp hs
    cases he
    exact h.exit

end Locked

omit [DecidableEq P] in
lemma locked_start : Locked (start P) := by
  refine ⟨fun _ => rfl, ?_, fun _ _ => rfl, ?_⟩
  · rintro _ _ ⟨⟩
  · rintro _ ⟨⟩

/-- In every run in which `sem_initial` runs only while no process holds the
semaphore, at most one process is in its critical section at any moment. -/
theorem mutual_exclusion {s : State P} (h : (system P).Reach ResetsFree s) : Exclusive s := by
  have hlocked : Locked s := by
    refine h.invariant ?_ fun s a s' hi hok hs => hi.step hok hs
    rintro _ rfl
    exact locked_start
  exact hlocked.exclusive

/-- The process `p` is killed in its critical section, and `q` enters. -/
def killedInside (p q : P) : List (Act P) :=
  [.start p true, .semget p true, .semInitial p true, .semP p true, .printIn p,
    .start q false, .semget q true, .kill p, .semP q true, .printIn q]

theorem mutual_exclusion_killed : ∃ s : State (Fin 2), (system (Fin 2)).Reach ResetsFree s ∧
    s.pc 1 = .inside ∧ Exclusive s := by
  have hrun : (((system (Fin 2)).guard ResetsFree).exec (start (Fin 2)) (killedInside 0 1)).map
      (·.pc 1) = some .inside := by
    decide +kernel
  obtain ⟨s, hs, hpc⟩ := Option.map_eq_some_iff.mp hrun
  have hinit : (system (Fin 2)).init (start (Fin 2)) := rfl
  have hreach : (system (Fin 2)).Reach ResetsFree s := (System.Reach.init hinit).exec_guard hs
  exact ⟨s, hreach, hpc, mutual_exclusion hreach⟩

/-- The process `q` is started with the argument too, while `p` is in its critical
section. -/
def secondInitial (p q : P) : List (Act P) :=
  [.start p true, .semget p true, .semInitial p true, .semP p true, .printIn p,
    .start q true, .semget q true, .semInitial q true, .semP q true, .printIn q]

theorem two_inside : ∃ s : State (Fin 2), (system (Fin 2)).Reachable s ∧ ¬ Exclusive s := by
  have hrun : ((system (Fin 2)).exec (start (Fin 2)) (secondInitial 0 1)).map
      (fun s => (s.pc 0, s.pc 1)) = some (.inside, .inside) := by
    decide +kernel
  obtain ⟨s, hs, hpcs⟩ := Option.map_eq_some_iff.mp hrun
  obtain ⟨h0, h1⟩ := Prod.mk.inj hpcs
  refine ⟨s, System.Reach.exec (.init rfl) (fun _ _ _ => trivial) hs, fun hexcl => ?_⟩
  exact absurd (hexcl 0 1 h0 h1) (by decide)

end ShareBike.Semaphore
