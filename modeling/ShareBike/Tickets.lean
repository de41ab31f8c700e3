import ShareBike.Lib.Progress
import Mathlib.Logic.Function.Basic

/-!
# Two stations that sell tickets

The thread `main` starts the thread `child`, and both take `rounds` turns at the counter
`global_value` of the tickets, under one lock: they read it to see whether there is a ticket,
read it again to print the ticket, and read and write it to count it down. `main` then waits
for `child` and destroys the lock. A call of `main` may fail, and then the process ends.
-/
namespace ShareBike.Tickets
open ShareBike.Lib

inductive Thread
  | main
  | child
  deriving DecidableEq

/-- The place of a thread; `i` is the number of its turn. -/
inductive Pc
  | init
  | create
  | idle
  | lock (i : ℕ)
  | test (i : ℕ)
  | print (i : ℕ)
  | load (i : ℕ)
  | store (i : ℕ) (v : ℤ)
  | unlock (i : ℕ)
  | join
  | destroy
  | ended
  deriving DecidableEq

/-- A line of output: `soled ticket(ticket) to MainStation(number)`. -/
structure Sale where
  ticket : ℤ
  station : Thread
  number : ℕ
  deriving DecidableEq

/-- `exited` is the exit code of the process. -/
structure State where
  global_value : ℤ
  lock : Option Thread
  pc : Thread → Pc
  sold : List Sale
  exited : Option ℕ

/-- A thread goes on, or the next call of `main` fails. -/
inductive Act
  | go (t : Thread)
  | fail
  deriving DecidableEq

/-- `i < rounds`, and what follows the loop. -/
def Pc.turn (rounds i : ℕ) (t : Thread) : Pc :=
  if i < rounds then .lock i
  else
    match t with
    | .main => .join
    | .child => .ended

namespace State

variable (s : State)

def goto (t : Thread) (pc : Pc) : State := { s with pc := Function.update s.pc t pc }

def acquire (t : Thread) : State := { s with lock := some t }

def release : State := { s with lock := none }

def sell (t : Thread) (number : ℕ) : State :=
  { s with sold := s.sold ++ [⟨s.global_value, t, number⟩] }

def setValue (v : ℤ) : State := { s with global_value := v }

def exit (code : ℕ) : State := { s with exited := some code }

/-- One step of a thread of a process that has not ended. -/
def go (rounds : ℕ) (t : Thread) : Option State :=
  match s.pc t with
  | .init => some (s.goto t .create)
  | .create => some ((s.goto .child (.turn rounds 0 .child)).goto .main (.turn rounds 0 .main))
  | .idle => none
  | .lock i => if s.lock = none then some ((s.acquire t).goto t (.test i)) else none
  | .test i => some (s.goto t (if 0 < s.global_value then .print i else .load i))
  | .print i => some ((s.sell t (i + 1)).goto t (.load i))
  | .load i => some (s.goto t (.store i s.global_value))
  | .store i v => some ((s.setValue (v - 1)).goto t (.unlock i))
  | .unlock i => some (s.release.goto t (.turn rounds (i + 1) t))
  | .join => if s.pc .child = .ended then some (s.goto t .destroy) else none
  | .destroy => some (s.exit 0)
  | .ended => none

end State

/-- One step of the process. -/
def step (rounds : ℕ) (s : State) : Act → Option State
  | .go t => if s.exited = none then s.go rounds t else none
  | .fail =>
    if s.exited = none ∧ (s.pc .main = .init ∨ s.pc .main = .create ∨ s.pc .main = .join ∨
      s.pc .main = .destroy) then some (s.exit 1)
    else none

def start (tickets : ℤ) : State where
  global_value := tickets
  lock := none
  pc
    | .main => .init
    | .child => .idle
  sold := []
  exited := none

/-- The source has `10` rounds and `1000` tickets. -/
def system (rounds : ℕ) (tickets : ℤ) : System State Act where
  init s := s = start tickets
  step := step rounds

variable {rounds : ℕ} {tickets : ℤ} {s s' : State} {t u : Thread}

section Places

/-- Between `pthread_mutex_lock` and `pthread_mutex_unlock`. -/
def Pc.inside : Pc → Bool
  | test _ => true
  | print _ => true
  | load _ => true
  | store _ _ => true
  | unlock _ => true
  | _ => false

/-- How often the thread has counted the tickets down. -/
def Pc.counted (rounds : ℕ) : Pc → ℕ
  | init => 0
  | create => 0
  | idle => 0
  | lock i => i
  | test i => i
  | print i => i
  | load i => i
  | store i _ => i
  | unlock i => i + 1
  | join => rounds
  | destroy => rounds
  | ended => rounds

/-- The thread has served a customer and not yet counted the tickets down. -/
def Pc.pending : Pc → ℕ
  | load _ => 1
  | store _ _ => 1
  | _ => 0

/-- The turn that the thread is in. -/
def Pc.number : Pc → Option ℕ
  | lock i => some i
  | test i => some i
  | print i => some i
  | load i => some i
  | store i _ => some i
  | unlock i => some i
  | _ => none

@[simp] lemma turn_inside (i : ℕ) : (Pc.turn rounds i t).inside = false := by
  unfold Pc.turn
  split_ifs
  · rfl
  · cases t <;> rfl

@[simp] lemma turn_pending (i : ℕ) : (Pc.turn rounds i t).pending = 0 := by
  unfold Pc.turn
  split_ifs
  · rfl
  · cases t <;> rfl

lemma turn_counted {i : ℕ} (hi : i ≤ rounds) : (Pc.turn rounds i t).counted rounds = i := by
  unfold Pc.turn
  split_ifs with hlt
  · rfl
  · cases t <;> exact (Nat.le_antisymm hi (Nat.le_of_not_lt hlt)).symm

lemma turn_number {i j : ℕ} (h : (Pc.turn rounds i t).number = some j) : j < rounds := by
  unfold Pc.turn at h
  split_ifs at h with hlt
  · cases h
    exact hlt
  · cases t <;> cases h

lemma pending_eq_zero {pc : Pc} (h : pc.inside = false) : pc.pending = 0 := by
  cases pc with
  | load i | store i v => cases h
  | _ => rfl

/-- A number of both threads. -/
def both (f : Pc → ℕ) (pc : Thread → Pc) : ℕ := f (pc .main) + f (pc .child)

lemma both_update (f : Pc → ℕ) (pc : Thread → Pc) (t : Thread) (p : Pc) :
    both f (Function.update pc t p) + f (pc t) = both f pc + f p := by
  unfold both
  cases t with
  | main =>
    rw [Function.update_self, Function.update_of_ne (by decide)]
    omega
  | child =>
    rw [Function.update_self, Function.update_of_ne (by decide)]
    omega

lemma goto_pc (p : Pc) (u : Thread) : (s.goto t p).pc u = if u = t then p else s.pc u := by
  unfold State.goto
  dsimp only
  by_cases h : u = t
  · rw [if_pos h, h, Function.update_self]
  · rw [if_neg h, Function.update_of_ne h]

/-- What follows the loop. -/
def Thread.after : Thread → Pc
  | main => .join
  | child => .ended

/-- Each thread is in its own part of the program, and `main` is at its end only after
`child`. -/
structure Placed (pc : Thread → Pc) : Prop where
  main : pc .main ≠ .idle ∧ pc .main ≠ .ended
  child : pc .child ≠ .init ∧ pc .child ≠ .create ∧ pc .child ≠ .join ∧ pc .child ≠ .destroy
  alone : pc .main = .init ∨ pc .main = .create ↔ pc .child = .idle
  last : pc .main = .destroy → pc .child = .ended

/-- A move inside the loop, or out of it. -/
lemma Placed.loop {pc : Thread → Pc} (h : Placed pc) {p : Pc} (hpc : (pc t).number ≠ none)
    (hp : p.number ≠ none ∨ p = t.after) : Placed (Function.update pc t p) := by
  have hinit : pc t ≠ .init ∧ pc t ≠ .create ∧ pc t ≠ .idle ∧ pc t ≠ .ended := by
    refine ⟨?_, ?_, ?_, ?_⟩ <;> intro he <;> rw [he] at hpc <;> exact hpc rfl
  cases t with
  | main =>
    have hne : p ≠ .idle ∧ p ≠ .ended ∧ p ≠ .init ∧ p ≠ .create ∧ p ≠ .destroy := by
      rcases hp with hp | rfl
      · refine ⟨?_, ?_, ?_, ?_, ?_⟩ <;> rintro rfl <;> exact hp rfl
      · simp [Thread.after]
    have hchild : Function.update pc .main p .child = pc .child :=
      Function.update_of_ne (by decide) ..
    have hmain : Function.update pc .main p .main = p := Function.update_self ..
    have halone : pc .child ≠ .idle := fun he => (h.alone.mpr he).elim hinit.1 hinit.2.1
    refine ⟨?_, ?_, ?_, ?_⟩
    · rw [hmain]
      exact ⟨hne.1, hne.2.1⟩
    · rw [hchild]
      exact h.child
    · rw [hmain, hchild]
      simp [hne, halone]
    · rw [hmain]
      exact fun he => absurd he hne.2.2.2.2
  | child =>
    have hne : p ≠ .idle ∧ p ≠ .init ∧ p ≠ .create ∧ p ≠ .join ∧ p ≠ .destroy := by
      rcases hp with hp | rfl
      · refine ⟨?_, ?_, ?_, ?_, ?_⟩ <;> rintro rfl <;> exact hp rfl
      · simp [Thread.after]
    have hmain : Function.update pc .child p .main = pc .main :=
      Function.update_of_ne (by decide) ..
    have hchild : Function.update pc .child p .child = p := Function.update_self ..
    refine ⟨?_, ?_, ?_, ?_⟩
    · rw [hmain]
      exact h.main
    · rw [hchild]
      exact ⟨hne.2.1, hne.2.2.1, hne.2.2.2.1, hne.2.2.2.2⟩
    · rw [hmain, hchild, h.alone]
      exact iff_of_false hinit.2.2.1 hne.1
    · rw [hmain]
      exact fun he => absurd (h.last he) hinit.2.2.2

lemma turn_cases (rounds i : ℕ) (t : Thread) :
    (Pc.turn rounds i t).number ≠ none ∨ Pc.turn rounds i t = t.after := by
  unfold Pc.turn
  split_ifs
  · exact .inl (Option.some_ne_none i)
  · cases t <;> exact .inr rfl

end Places

section Step

/-- What a step of a thread does, in the cases of the source. -/
inductive Goes (rounds : ℕ) (s : State) (t : Thread) : State → Prop
  | init : s.pc t = .init → Goes rounds s t (s.goto t .create)
  | create : s.pc t = .create → Goes rounds s t
      ((s.goto .child (.turn rounds 0 .child)).goto .main (.turn rounds 0 .main))
  | lock {i : ℕ} : s.pc t = .lock i → s.lock = none →
      Goes rounds s t ((s.acquire t).goto t (.test i))
  | some {i : ℕ} : s.pc t = .test i → 0 < s.global_value → Goes rounds s t (s.goto t (.print i))
  | none {i : ℕ} : s.pc t = .test i → s.global_value ≤ 0 → Goes rounds s t (s.goto t (.load i))
  | print {i : ℕ} : s.pc t = .print i → Goes rounds s t ((s.sell t (i + 1)).goto t (.load i))
  | load {i : ℕ} : s.pc t = .load i → Goes rounds s t (s.goto t (.store i s.global_value))
  | store {i : ℕ} {v : ℤ} : s.pc t = .store i v →
      Goes rounds s t ((s.setValue (v - 1)).goto t (.unlock i))
  | unlock {i : ℕ} : s.pc t = .unlock i →
      Goes rounds s t (s.release.goto t (.turn rounds (i + 1) t))
  | join : s.pc t = .join → s.pc .child = .ended → Goes rounds s t (s.goto t .destroy)
  | destroy : s.pc t = .destroy → Goes rounds s t (s.exit 0)

lemma goes_of_go (h : s.go rounds t = some s') : Goes rounds s t s' := by
  unfold State.go at h
  split at h
  · cases h
    exact .init ‹_›
  · cases h
    exact .create ‹_›
  · cases h
  · obtain ⟨hfree, he⟩ := Option.ite_none_right_eq_some.mp h
    cases he
    exact .lock ‹_› hfree
  · cases h
    split_ifs with hpos
    · exact .some ‹_› hpos
    · exact .none ‹_› (Int.not_lt.mp hpos)
  · cases h
    exact .print ‹_›
  · cases h
    exact .load ‹_›
  · cases h
    exact .store ‹_›
  · cases h
    exact .unlock ‹_›
  · obtain ⟨hended, he⟩ := Option.ite_none_right_eq_some.mp h
    cases he
    exact .join ‹_› hended
  · cases h
    exact .destroy ‹_›
  · cases h

/-- The run lemma: a property of the states that every step of a thread keeps. -/
lemma invariant_of_goes {I : State → Prop} (hstart : I (start tickets))
    (hfail : ∀ s, I s → I (s.exit 1))
    (hgoes : ∀ s t s', I s → s.exited = none → Goes rounds s t s' → I s')
    (h : (system rounds tickets).Reachable s) : I s := by
  refine h.invariant ?_ fun s a s' hI _ hs => ?_
  · rintro s rfl
    exact hstart
  · cases a with
    | go t =>
      obtain ⟨hrun, hgo⟩ := Option.ite_none_right_eq_some.mp hs
      exact hgoes s t s' hI hrun (goes_of_go hgo)
    | fail =>
      obtain ⟨-, he⟩ := Option.ite_none_right_eq_some.mp hs
      cases he
      exact hfail s hI

/-- Only `main` makes the calls before and after its loop. -/
lemma Placed.eq_main (h : Placed s.pc)
    (hpc : s.pc t = .init ∨ s.pc t = .create ∨ s.pc t = .join ∨ s.pc t = .destroy) :
    t = .main := by
  obtain ⟨hinit, hcreate, hjoin, hdestroy⟩ := h.child
  cases t with
  | main => rfl
  | child =>
    rcases hpc with hpc | hpc | hpc | hpc
    · exact absurd hpc hinit
    · exact absurd hpc hcreate
    · exact absurd hpc hjoin
    · exact absurd hpc hdestroy

/-- `main` moves to another call. -/
lemma Placed.call {pc : Thread → Pc} (h : Placed pc) {p : Pc} (hp : p = .create ∨ p = .destroy)
    (halone : p = .create ↔ pc .child = .idle) (hlast : p = .destroy → pc .child = .ended) :
    Placed (Function.update pc .main p) := by
  have hmain : Function.update pc .main p .main = p := Function.update_self ..
  have hchild : Function.update pc .main p .child = pc .child :=
    Function.update_of_ne (by decide) ..
  refine ⟨?_, ?_, ?_, ?_⟩
  · rw [hmain]
    rcases hp with rfl | rfl <;> simp
  · rw [hchild]
    exact h.child
  · rw [hmain, hchild, ← halone]
    rcases hp with rfl | rfl <;> simp
  · rw [hmain, hchild]
    exact hlast

/-- Both threads are at the start of their loops. -/
lemma placed_both (rounds : ℕ) (pc : Thread → Pc) :
    Placed (Function.update (Function.update pc .child (.turn rounds 0 .child)) .main
      (.turn rounds 0 .main)) := by
  have hmain : (Pc.turn rounds 0 .main).number ≠ none ∨ Pc.turn rounds 0 .main = .join :=
    turn_cases rounds 0 .main
  have hchild : (Pc.turn rounds 0 .child).number ≠ none ∨ Pc.turn rounds 0 .child = .ended :=
    turn_cases rounds 0 .child
  refine ⟨?_, ?_, ?_, ?_⟩
  · rw [Function.update_self]
    refine ⟨?_, ?_⟩ <;> intro he <;> rw [he] at hmain <;> simp [Pc.number] at hmain
  · rw [Function.update_of_ne (by decide), Function.update_self]
    refine ⟨?_, ?_, ?_, ?_⟩ <;> intro he <;> rw [he] at hchild <;> simp [Pc.number] at hchild
  · rw [Function.update_self, Function.update_of_ne (by decide), Function.update_self]
    refine iff_of_false (fun he => ?_) fun he => ?_
    · rcases he with he | he <;> rw [he] at hmain <;> simp [Pc.number] at hmain
    · rw [he] at hchild
      simp [Pc.number] at hchild
  · rw [Function.update_self]
    intro he
    rw [he] at hmain
    simp [Pc.number] at hmain

lemma Placed.goes (h : Placed s.pc) (hg : Goes rounds s t s') : Placed s'.pc := by
  cases hg with
  | init hpc =>
    obtain rfl := h.eq_main (.inl hpc)
    exact h.call (.inl rfl) (iff_of_true rfl (h.alone.mp (.inl hpc))) fun he => by cases he
  | create hpc => exact placed_both rounds s.pc
  | lock hpc hfree => exact h.loop (by rw [hpc]; simp [Pc.number]) (.inl (by simp [Pc.number]))
  | some hpc hpos => exact h.loop (by rw [hpc]; simp [Pc.number]) (.inl (by simp [Pc.number]))
  | none hpc hneg => exact h.loop (by rw [hpc]; simp [Pc.number]) (.inl (by simp [Pc.number]))
  | print hpc => exact h.loop (by rw [hpc]; simp [Pc.number]) (.inl (by simp [Pc.number]))
  | load hpc => exact h.loop (by rw [hpc]; simp [Pc.number]) (.inl (by simp [Pc.number]))
  | store hpc => exact h.loop (by rw [hpc]; simp [Pc.number]) (.inl (by simp [Pc.number]))
  | unlock hpc => exact h.loop (by rw [hpc]; simp [Pc.number]) (turn_cases rounds _ t)
  | join hpc hended =>
    obtain rfl := h.eq_main (.inr (.inr (.inl hpc)))
    refine h.call (.inr rfl) (iff_of_false (by simp) ?_) fun _ => hended
    rw [hended]
    simp
  | destroy hpc => exact h

end Step

section Lock

/-- The lock is held by the thread that is inside. -/
def Locked (s : State) : Prop := ∀ t, (s.pc t).inside = true ↔ s.lock = some t

lemma Locked.eq (h : Locked s) (ht : (s.pc t).inside) (hu : (s.pc u).inside) : t = u := by
  have hlock := (h t).mp ht
  rw [(h u).mp hu] at hlock
  exact (Option.some.inj hlock).symm

/-- The other thread is not inside. -/
lemma Locked.other (h : Locked s) (ht : (s.pc t).inside) (hu : u ≠ t) :
    (s.pc u).inside = false := by
  rw [← Bool.not_eq_true]
  exact fun hi => hu (h.eq hi ht)

/-- A move that does not touch the lock. -/
lemma Locked.move (h : Locked s) {p : Pc} (hlock : s'.lock = s.lock)
    (hpc : s'.pc = Function.update s.pc t p) (hp : p.inside = (s.pc t).inside) : Locked s' := by
  intro u
  rw [hpc, hlock, ← h u]
  by_cases hu : u = t
  · rw [hu, Function.update_self, hp]
  · rw [Function.update_of_ne hu]

lemma Locked.goes (h : Locked s) (hplaced : Placed s.pc) (hg : Goes rounds s t s') : Locked s' := by
  cases hg with
  | init hpc => exact h.move rfl rfl (by rw [hpc]; rfl)
  | create hpc =>
    obtain rfl := hplaced.eq_main (.inr (.inl hpc))
    have hidle := hplaced.alone.mp (.inr hpc)
    have hchild : Locked (s.goto .child (.turn rounds 0 .child)) :=
      h.move rfl rfl (by rw [hidle, turn_inside]; rfl)
    refine hchild.move rfl rfl ?_
    have hmain : (s.goto .child (.turn rounds 0 .child)).pc .main = .create := by
      rw [goto_pc, if_neg (by decide), hpc]
    rw [hmain, turn_inside]
    rfl
  | @lock i hpc hfree =>
    intro u
    change (Function.update s.pc t (.test i) u).inside = true ↔ some t = some u
    by_cases hu : u = t
    · rw [hu, Function.update_self]
      exact iff_of_true rfl rfl
    · rw [Function.update_of_ne hu, h u, hfree]
      exact iff_of_false (by simp) fun he => hu (Option.some.inj he).symm
  | some hpc hpos => exact h.move rfl rfl (by rw [hpc]; rfl)
  | none hpc hneg => exact h.move rfl rfl (by rw [hpc]; rfl)
  | print hpc => exact h.move rfl rfl (by rw [hpc]; rfl)
  | load hpc => exact h.move rfl rfl (by rw [hpc]; rfl)
  | store hpc => exact h.move rfl rfl (by rw [hpc]; rfl)
  | @unlock i hpc =>
    have hin : (s.pc t).inside = true := by rw [hpc]; rfl
    intro u
    change (Function.update s.pc t (.turn rounds (i + 1) t) u).inside = true ↔ none = some u
    by_cases hu : u = t
    · rw [hu, Function.update_self, turn_inside]
      simp
    · rw [Function.update_of_ne hu, h.other hin hu]
      simp
  | join hpc hended => exact h.move rfl rfl (by rw [hpc]; rfl)
  | destroy hpc => exact h

end Lock

section Counting

/-- How many customers the thread has served. -/
def Pc.served (rounds : ℕ) (pc : Pc) : ℕ := pc.counted rounds + pc.pending

/-- The numbers that a station has printed. -/
def numbers (sold : List Sale) (t : Thread) : List ℕ :=
  (sold.filter (·.station = t)).map Sale.number

lemma numbers_concat (sold : List Sale) (sale : Sale) (t : Thread) :
    numbers (sold ++ [sale]) t =
      numbers sold t ++ if sale.station = t then [sale.number] else [] := by
  unfold numbers
  split_ifs with h <;> simp [h]

/-- What was sold, in terms of the places of the threads. -/
structure Counted (rounds : ℕ) (tickets : ℤ) (s : State) : Prop where
  turns : ∀ t i, (s.pc t).number = some i → i < rounds
  value : s.global_value = tickets - both (Pc.counted rounds) s.pc
  loaded : ∀ t i v, s.pc t = .store i v → v = s.global_value
  positive : ∀ t i, s.pc t = .print i → 0 < s.global_value
  sold : s.sold.map Sale.ticket =
    (List.range (min tickets.toNat (both (Pc.served rounds) s.pc))).map fun k : ℕ => tickets - k
  numbers : ∀ t, ∃ m, numbers s.sold t = (List.range m).map (· + 1) ∧
    (0 < s.global_value → m = (s.pc t).served rounds)

/-- A move that neither sells nor counts. -/
lemma Counted.move (h : Counted rounds tickets s) {p : Pc}
    (hvalue : s'.global_value = s.global_value) (hsold : s'.sold = s.sold)
    (hpc : s'.pc = Function.update s.pc t p)
    (hcounted : p.counted rounds = (s.pc t).counted rounds)
    (hserved : p.served rounds = (s.pc t).served rounds)
    (hturn : ∀ i, p.number = some i → i < rounds)
    (hloaded : ∀ i v, p = .store i v → v = s.global_value)
    (hpositive : ∀ i, p = .print i → 0 < s.global_value) : Counted rounds tickets s' := by
  have hbothc := both_update (Pc.counted rounds) s.pc t p
  have hboths := both_update (Pc.served rounds) s.pc t p
  rw [hcounted] at hbothc
  rw [hserved] at hboths
  refine ⟨?_, ?_, ?_, ?_, ?_, ?_⟩
  · intro u i hu
    rw [hpc] at hu
    by_cases hut : u = t
    · rw [hut, Function.update_self] at hu
      exact hturn i hu
    · rw [Function.update_of_ne hut] at hu
      exact h.turns u i hu
  · rw [hvalue, hpc, Nat.add_right_cancel hbothc]
    exact h.value
  · intro u i v hu
    rw [hvalue]
    rw [hpc] at hu
    by_cases hut : u = t
    · rw [hut, Function.update_self] at hu
      exact hloaded i v hu
    · rw [Function.update_of_ne hut] at hu
      exact h.loaded u i v hu
  · intro u i hu
    rw [hvalue]
    rw [hpc] at hu
    by_cases hut : u = t
    · rw [hut, Function.update_self] at hu
      exact hpositive i hu
    · rw [Function.update_of_ne hut] at hu
      exact h.positive u i hu
  · rw [hsold, hpc, Nat.add_right_cancel hboths]
    exact h.sold
  · intro u
    rw [hsold, hvalue, hpc]
    by_cases hut : u = t
    · rw [hut, Function.update_self, hserved]
      exact h.numbers t
    · rw [Function.update_of_ne hut]
      exact h.numbers u

lemma counted_le_served (rounds : ℕ) (pc : Thread → Pc) :
    both (Pc.counted rounds) pc ≤ both (Pc.served rounds) pc := by
  unfold both Pc.served
  omega

/-- Without a ticket there is nothing to sell. -/
lemma Counted.none (h : Counted rounds tickets s) {i : ℕ} (hpc : s.pc t = .test i)
    (hneg : s.global_value ≤ 0) : Counted rounds tickets (s.goto t (.load i)) := by
  have hbothc := both_update (Pc.counted rounds) s.pc t (.load i)
  have hboths := both_update (Pc.served rounds) s.pc t (.load i)
  rw [hpc] at hbothc hboths
  have hturn := h.turns t i (by rw [hpc]; rfl)
  refine ⟨?_, ?_, ?_, ?_, ?_, ?_⟩
  · intro u j hu
    rw [goto_pc] at hu
    split_ifs at hu with hut
    · cases hu
      exact hturn
    · exact h.turns u j hu
  · change s.global_value = tickets - both (Pc.counted rounds) (Function.update s.pc t (.load i))
    rw [Nat.add_right_cancel hbothc]
    exact h.value
  · intro u j v hu
    rw [goto_pc] at hu
    split_ifs at hu with hut
    exact h.loaded u j v hu
  · intro u j hu
    rw [goto_pc] at hu
    split_ifs at hu with hut
    exact h.positive u j hu
  · have hvalue := h.value
    have hle := counted_le_served rounds s.pc
    have hmin : min tickets.toNat (both (Pc.served rounds) (Function.update s.pc t (.load i))) =
        min tickets.toNat (both (Pc.served rounds) s.pc) := by
      simp only [Pc.served, Pc.counted, Pc.pending] at hboths
      omega
    change s.sold.map Sale.ticket = (List.range (min tickets.toNat
      (both (Pc.served rounds) (Function.update s.pc t (.load i))))).map fun k : ℕ => tickets - k
    rw [hmin]
    exact h.sold
  · intro u
    obtain ⟨m, hm, -⟩ := h.numbers u
    exact ⟨m, hm, fun hpos => absurd hpos (Int.not_lt.mpr hneg)⟩

/-- The ticket that is sold is the next one, and so is the number of the customer. -/
lemma Counted.print (h : Counted rounds tickets s) (hlocked : Locked s) {i : ℕ}
    (hpc : s.pc t = .print i) : Counted rounds tickets ((s.sell t (i + 1)).goto t (.load i)) := by
  have hbothc := both_update (Pc.counted rounds) s.pc t (.load i)
  have hboths := both_update (Pc.served rounds) s.pc t (.load i)
  have hturn := h.turns t i (by rw [hpc]; rfl)
  have hpos := h.positive t i hpc
  have hin : (s.pc t).inside = true := by rw [hpc]; rfl
  have hnone : both (Pc.served rounds) s.pc = both (Pc.counted rounds) s.pc := by
    have hpending : ∀ u, (s.pc u).pending = 0 := by
      intro u
      by_cases hut : u = t
      · rw [hut, hpc]
        rfl
      · exact pending_eq_zero (hlocked.other hin hut)
    unfold both Pc.served
    rw [hpending, hpending, Nat.add_zero, Nat.add_zero]
  rw [hpc] at hbothc hboths
  have hpcs : ((s.sell t (i + 1)).goto t (.load i)).pc = Function.update s.pc t (.load i) := rfl
  refine ⟨?_, ?_, ?_, ?_, ?_, ?_⟩
  · intro u j hu
    rw [goto_pc] at hu
    split_ifs at hu with hut
    · cases hu
      exact hturn
    · exact h.turns u j hu
  · rw [hpcs, Nat.add_right_cancel hbothc]
    exact h.value
  · intro u j v hu
    rw [goto_pc] at hu
    split_ifs at hu with hut
    exact h.loaded u j v hu
  · intro u j hu
    rw [goto_pc] at hu
    split_ifs at hu with hut
    exact h.positive u j hu
  · have hvalue := h.value
    have hnext : min tickets.toNat (both (Pc.served rounds) (Function.update s.pc t (.load i))) =
        both (Pc.counted rounds) s.pc + 1 := by
      simp only [Pc.served, Pc.counted, Pc.pending] at hboths hnone ⊢
      omega
    have hlast : min tickets.toNat (both (Pc.served rounds) s.pc) =
        both (Pc.counted rounds) s.pc := by
      omega
    have hsold := h.sold
    rw [hlast] at hsold
    rw [hpcs, hnext, List.range_succ, List.map_append, ← hsold, List.map_singleton, ← hvalue]
    exact List.map_append
  · intro u
    obtain ⟨m, hm, hserved⟩ := h.numbers u
    by_cases hut : u = t
    · subst hut
      have hmi : m = i := by
        rw [hserved hpos, hpc]
        rfl
      subst hmi
      refine ⟨m + 1, ?_, fun _ => ?_⟩
      · rw [List.range_succ, List.map_append, ← hm]
        change Tickets.numbers (s.sold ++ [⟨s.global_value, u, m + 1⟩]) u = _
        rw [numbers_concat, if_pos rfl, List.map_singleton]
      · rw [goto_pc, if_pos rfl]
        rfl
    · refine ⟨m, ?_, fun hp => ?_⟩
      · rw [← hm]
        change Tickets.numbers (s.sold ++ [⟨s.global_value, t, i + 1⟩]) u = _
        rw [numbers_concat, if_neg (Ne.symm hut), List.append_nil]
      · rw [goto_pc, if_neg hut]
        exact hserved hp

/-- The value that was loaded is still that of the counter. -/
lemma Counted.store (h : Counted rounds tickets s) (hlocked : Locked s) {i : ℕ} {v : ℤ}
    (hpc : s.pc t = .store i v) :
    Counted rounds tickets ((s.setValue (v - 1)).goto t (.unlock i)) := by
  have hbothc := both_update (Pc.counted rounds) s.pc t (.unlock i)
  have hboths := both_update (Pc.served rounds) s.pc t (.unlock i)
  have hturn := h.turns t i (by rw [hpc]; rfl)
  have hv := h.loaded t i v hpc
  have hin : (s.pc t).inside = true := by rw [hpc]; rfl
  rw [hpc] at hbothc hboths
  have hpcs : ((s.setValue (v - 1)).goto t (.unlock i)).pc =
      Function.update s.pc t (.unlock i) := rfl
  have hvalue' : ((s.setValue (v - 1)).goto t (.unlock i)).global_value = v - 1 := rfl
  refine ⟨?_, ?_, ?_, ?_, ?_, ?_⟩
  · intro u j hu
    rw [goto_pc] at hu
    split_ifs at hu with hut
    · cases hu
      exact hturn
    · exact h.turns u j hu
  · have hvalue := h.value
    simp only [Pc.counted] at hbothc
    rw [hpcs, hvalue']
    omega
  · intro u j w hu
    rw [goto_pc] at hu
    split_ifs at hu with hut
    have hout := hlocked.other hin hut
    change s.pc u = .store j w at hu
    rw [hu] at hout
    cases hout
  · intro u j hu
    rw [goto_pc] at hu
    split_ifs at hu with hut
    have hout := hlocked.other hin hut
    change s.pc u = .print j at hu
    rw [hu] at hout
    cases hout
  · simp only [Pc.served, Pc.counted, Pc.pending] at hboths
    have hsame : both (Pc.served rounds) (Function.update s.pc t (.unlock i)) =
        both (Pc.served rounds) s.pc := by
      omega
    rw [hpcs, hsame]
    exact h.sold
  · intro u
    obtain ⟨m, hm, hserved⟩ := h.numbers u
    refine ⟨m, hm, fun hp => ?_⟩
    rw [hvalue'] at hp
    rw [hserved (by omega), goto_pc]
    split_ifs with hut
    · rw [hut, hpc]
      rfl
    · rfl

/-- A move within a turn. -/
lemma Counted.inTurn (h : Counted rounds tickets s) {p : Pc}
    (hvalue : s'.global_value = s.global_value) (hsold : s'.sold = s.sold)
    (hpc : s'.pc = Function.update s.pc t p)
    (hcounted : p.counted rounds = (s.pc t).counted rounds)
    (hserved : p.served rounds = (s.pc t).served rounds) (hnumber : p.number = (s.pc t).number)
    (hloaded : ∀ i v, p = .store i v → v = s.global_value)
    (hpositive : ∀ i, p = .print i → 0 < s.global_value) : Counted rounds tickets s' :=
  h.move hvalue hsold hpc hcounted hserved (fun i hi => h.turns t i (hnumber ▸ hi)) hloaded
    hpositive

/-- A move to the start of a turn, or behind the last one. -/
lemma Counted.toTurn (h : Counted rounds tickets s) {i : ℕ} (hi : i ≤ rounds)
    (hvalue : s'.global_value = s.global_value) (hsold : s'.sold = s.sold)
    (hpc : s'.pc = Function.update s.pc t (.turn rounds i t))
    (hcounted : (s.pc t).counted rounds = i) (hpending : (s.pc t).pending = 0) :
    Counted rounds tickets s' := by
  refine h.move hvalue hsold hpc ?_ ?_ (fun j hj => turn_number hj) (fun j v he => ?_)
    fun j he => ?_
  · rw [turn_counted hi, hcounted]
  · unfold Pc.served
    rw [turn_counted hi, hcounted, hpending, turn_pending]
  · have hin : (Pc.turn rounds i t).inside = false := turn_inside i
    rw [he] at hin
    cases hin
  · have hin : (Pc.turn rounds i t).inside = false := turn_inside i
    rw [he] at hin
    cases hin

lemma Counted.goes (h : Counted rounds tickets s) (hplaced : Placed s.pc) (hlocked : Locked s)
    (hg : Goes rounds s t s') : Counted rounds tickets s' := by
  cases hg with
  | init hpc =>
    exact h.inTurn rfl rfl rfl (by rw [hpc]; rfl) (by rw [hpc]; rfl) (by rw [hpc]; rfl) (by simp)
      (by simp)
  | create hpc =>
    obtain rfl := hplaced.eq_main (.inr (.inl hpc))
    have hidle := hplaced.alone.mp (.inr hpc)
    have hmain : (s.goto .child (.turn rounds 0 .child)).pc .main = .create := by
      rw [goto_pc, if_neg (by decide), hpc]
    have hchild : Counted rounds tickets (s.goto .child (.turn rounds 0 .child)) :=
      h.toTurn (Nat.zero_le _) rfl rfl rfl (by rw [hidle]; rfl) (by rw [hidle]; rfl)
    exact hchild.toTurn (Nat.zero_le _) rfl rfl rfl (by rw [hmain]; rfl) (by rw [hmain]; rfl)
  | lock hpc hfree =>
    exact h.inTurn rfl rfl rfl (by rw [hpc]; rfl) (by rw [hpc]; rfl) (by rw [hpc]; rfl) (by simp)
      (by simp)
  | some hpc hpos =>
    exact h.inTurn rfl rfl rfl (by rw [hpc]; rfl) (by rw [hpc]; rfl) (by rw [hpc]; rfl) (by simp)
      fun _ _ => hpos
  | none hpc hneg => exact h.none hpc hneg
  | print hpc => exact h.print hlocked hpc
  | load hpc =>
    refine h.inTurn rfl rfl rfl (by rw [hpc]; rfl) (by rw [hpc]; rfl) (by rw [hpc]; rfl) ?_
      (by simp)
    rintro i v ⟨⟩
    rfl
  | store hpc => exact h.store hlocked hpc
  | unlock hpc =>
    have hturn := h.turns t _ (by rw [hpc]; rfl)
    exact h.toTurn (Nat.succ_le_of_lt hturn) rfl rfl rfl (by rw [hpc]; rfl) (by rw [hpc]; rfl)
  | join hpc hended =>
    exact h.inTurn rfl rfl rfl (by rw [hpc]; rfl) (by rw [hpc]; rfl) (by rw [hpc]; rfl) (by simp)
      (by simp)
  | destroy hpc => exact ⟨h.turns, h.value, h.loaded, h.positive, h.sold, h.numbers⟩

end Counting

section Safety

/-- What holds in every state of a run. -/
structure Sells (rounds : ℕ) (tickets : ℤ) (s : State) : Prop where
  placed : Placed s.pc
  locked : Locked s
  counted : Counted rounds tickets s
  ended : s.exited = some 0 → s.pc .main = .destroy

lemma sells_start : Sells rounds tickets (start tickets) := by
  refine ⟨⟨by simp [start], by simp [start], by simp [start], by simp [start]⟩, ?_, ?_, ?_⟩
  · intro t
    cases t <;> simp [start, Pc.inside]
  · refine ⟨?_, ?_, ?_, ?_, ?_, ?_⟩
    · intro t i hi
      cases t <;> cases hi
    · simp [start, both, Pc.counted]
    · intro t i v hv
      cases t <;> cases hv
    · intro t i hi
      cases t <;> cases hi
    · simp [start, both, Pc.served, Pc.counted, Pc.pending]
    · intro t
      refine ⟨0, rfl, fun _ => ?_⟩
      cases t <;> rfl
  · intro he
    cases he

lemma Sells.goes (h : Sells rounds tickets s) (hrun : s.exited = none)
    (hg : Goes rounds s t s') : Sells rounds tickets s' := by
  refine ⟨h.placed.goes hg, h.locked.goes h.placed hg, h.counted.goes h.placed h.locked hg, ?_⟩
  cases hg with
  | destroy hpc =>
    obtain rfl := h.placed.eq_main (.inr (.inr (.inr hpc)))
    exact fun _ => hpc
  | _ =>
    intro he
    change s.exited = some 0 at he
    rw [hrun] at he
    cases he

lemma sells_of_reachable (h : (system rounds tickets).Reachable s) : Sells rounds tickets s := by
  refine invariant_of_goes sells_start ?_ (fun s t s' h hrun hg => h.goes hrun hg) h
  intro s h
  refine ⟨h.placed, h.locked, ?_, fun he => by cases he⟩
  exact ⟨h.counted.turns, h.counted.value, h.counted.loaded, h.counted.positive, h.counted.sold,
    h.counted.numbers⟩

/-- What is left when the process ends well. -/
lemma Sells.final (h : Sells rounds tickets s) (hexit : s.exited = some 0) :
    s.lock = none ∧ s.pc .child = .ended ∧ s.global_value = tickets - 2 * rounds ∧
      both (Pc.served rounds) s.pc = 2 * rounds := by
  have hmain := h.ended hexit
  have hchild := h.placed.last hmain
  have hvalue := h.counted.value
  have hcounted : both (Pc.counted rounds) s.pc = 2 * rounds := by
    unfold both
    rw [hmain, hchild]
    simp only [Pc.counted]
    omega
  refine ⟨?_, hchild, ?_, ?_⟩
  · cases hlock : s.lock with
    | none => rfl
    | some t =>
      have hin := (h.locked t).mpr hlock
      cases t with
      | main =>
        rw [hmain] at hin
        cases hin
      | child =>
        rw [hchild] at hin
        cases hin
  · rw [hvalue, hcounted]
    omega
  · unfold both
    rw [hmain, hchild]
    simp only [Pc.served, Pc.counted, Pc.pending]
    omega

end Safety

end ShareBike.Tickets
