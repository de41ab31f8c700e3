import ShareBike.CommTable
import ShareBike.Lib.Transition

/-!
# Handlers and the directions that are monitored

`commUpdateReadHandler` and `commUpdateWriteHandler` store a handler in one slot of the
table, but register a mask for their own direction only: a descriptor is monitored in
the direction that was updated last. The echo service relies on it to take turns; both
handlers stay in the table while one of them is waited for.
-/
namespace ShareBike.Comm
open ShareBike.Lib

/-- A call that changes handlers; `epoll_ctl` succeeds. -/
inductive Update (H D : Type)
  | commUpdateReadHandler (fd : ℕ) (handler : Option H) (data : Option D)
  | commUpdateWriteHandler (fd : ℕ) (handler : Option H) (data : Option D)
  | commClose (fd : ℕ)

def Update.fd {H D : Type} : Update H D → ℕ
  | commUpdateReadHandler fd _ _ => fd
  | commUpdateWriteHandler fd _ _ => fd
  | commClose fd => fd

/-- Any calls, on any descriptors; `comm_close` asserts `fd > 0`. -/
def updates (H D : Type) : System (Framework H D) (Update H D) where
  init c := ∃ maxFd isOpen clock, c = .commInit maxFd isOpen clock
  step c
    | .commUpdateReadHandler fd handler data =>
      some (c.commUpdateReadHandler fd handler data true)
    | .commUpdateWriteHandler fd handler data =>
      some (c.commUpdateWriteHandler fd handler data true)
    | .commClose fd => if 0 < fd then some (c.commClose fd true) else none

variable {H D : Type} {c c' : Framework H D} {u : Update H D} {last : ℕ → Option (Update H D)}

/-- The last call for each descriptor. -/
def recordLast (_ : Framework H D) (u : Update H D) (last : ℕ → Option (Update H D)) :
    ℕ → Option (Update H D) := Function.update last u.fd (some u)

/-- The descriptor is in no interest set, and has no handlers. -/
structure Idle (c : Framework H D) (fd : ℕ) : Prop where
  interest : c.interest fd = none
  read : (c.fdTable fd).readHandler = none
  write : (c.fdTable fd).writeHandler = none

/-- What is monitored at a descriptor after its last call. Nothing is said of a call that
installs no handler. -/
def Monitors (c : Framework H D) (fd : ℕ) : Option (Update H D) → Prop
  | none => Idle c fd
  | some (.commClose _) => Idle c fd
  | some (.commUpdateReadHandler _ (some handler) _) =>
    (c.fdTable fd).readHandler = some handler ∧
      ∃ ev, c.interest fd = some ev ∧ ev.epollin = true ∧ ev.epollout = false
  | some (.commUpdateWriteHandler _ (some handler) _) =>
    (c.fdTable fd).writeHandler = some handler ∧
      ∃ ev, c.interest fd = some ev ∧ ev.epollin = false ∧ ev.epollout = true
  | some (.commUpdateReadHandler _ none _) => True
  | some (.commUpdateWriteHandler _ none _) => True

lemma Registered.interest (h : c.Registered) {fd : ℕ} {ev : Events} (he : c.epollState fd = ev)
    (hev : ev.nonzero = true) : c.interest fd = some ev := by
  rw [h.eq fd, he, if_pos hev]

lemma Update.registered_step (h : c.Registered) (hs : (updates H D).step c u = some c') :
    c'.Registered := by
  cases u with
  | commUpdateReadHandler fd handler data =>
    cases hs
    exact h.commUpdateReadHandler fd handler data
  | commUpdateWriteHandler fd handler data =>
    cases hs
    exact h.commUpdateWriteHandler fd handler data
  | commClose fd =>
    obtain ⟨-, he⟩ := Option.ite_none_right_eq_some.mp hs
    cases he
    exact h.commClose fd

/-- A call decides what is monitored at its descriptor. -/
lemma Update.monitors_step (h : c.Registered) (hs : (updates H D).step c u = some c') :
    Monitors c' u.fd (some u) := by
  have hreg := Update.registered_step h hs
  cases u with
  | commUpdateReadHandler fd handler data =>
    cases handler with
    | none => trivial
    | some handler =>
      cases hs
      refine ⟨by simp [Update.fd], .wanted true false, ?_, rfl, rfl⟩
      exact Registered.interest hreg (by simp [Update.fd]) rfl
  | commUpdateWriteHandler fd handler data =>
    cases handler with
    | none => trivial
    | some handler =>
      cases hs
      refine ⟨by simp [Update.fd], .wanted false true, ?_, rfl, rfl⟩
      exact Registered.interest hreg (by simp [Update.fd]) rfl
  | commClose fd =>
    obtain ⟨-, he⟩ := Option.ite_none_right_eq_some.mp hs
    cases he
    refine ⟨?_, by simp [Update.fd, Fde.zero], by simp [Update.fd, Fde.zero]⟩
    simp [Update.fd, Framework.commClose, Framework.close]

/-- It leaves the other descriptors alone. -/
lemma Update.frame_step (hs : (updates H D).step c u = some c') {fd : ℕ} (hne : fd ≠ u.fd) :
    c'.interest fd = c.interest fd ∧ c'.fdTable fd = c.fdTable fd := by
  cases u with
  | commUpdateReadHandler g handler data =>
    cases hs
    refine ⟨Framework.epollSetEvents_interest_of_ne _ g true false true hne, ?_⟩
    rw [Framework.commUpdateReadHandler_fdTable]
    exact Function.update_of_ne hne _ _
  | commUpdateWriteHandler g handler data =>
    cases hs
    refine ⟨Framework.epollSetEvents_interest_of_ne _ g false true true hne, ?_⟩
    rw [Framework.commUpdateWriteHandler_fdTable]
    exact Function.update_of_ne hne _ _
  | commClose g =>
    obtain ⟨-, he⟩ := Option.ite_none_right_eq_some.mp hs
    cases he
    refine ⟨Framework.commClose_interest_of_ne c g true hne, ?_⟩
    rw [Framework.commClose_fdTable]
    exact Function.update_of_ne hne _ _

/-- Only the descriptor's own entries matter. -/
lemma Monitors.congr {fd : ℕ} (hinterest : c'.interest fd = c.interest fd)
    (htable : c'.fdTable fd = c.fdTable fd) {o : Option (Update H D)} (h : Monitors c fd o) :
    Monitors c' fd o := by
  have hidle : Idle c fd → Idle c' fd := fun hi =>
    ⟨hinterest.trans hi.interest, htable ▸ hi.read, htable ▸ hi.write⟩
  match o, h with
  | none, h => exact hidle h
  | some (.commClose _), h => exact hidle h
  | some (.commUpdateReadHandler _ (some _) _), h =>
    simp only [Monitors, hinterest, htable]
    exact h
  | some (.commUpdateWriteHandler _ (some _) _), h =>
    simp only [Monitors, hinterest, htable]
    exact h
  | some (.commUpdateReadHandler _ none _), _ => trivial
  | some (.commUpdateWriteHandler _ none _), _ => trivial

/-- In every run of handler updates and closes, each descriptor is monitored in exactly the
direction whose handler was installed last, and not at all after `comm_close`; a call
changes nothing at other descriptors. -/
theorem monitored_by_last (h : ((updates H D).withHistory (fun _ => none) recordLast).Reachable
      (c, last)) :
    (∀ fd, Monitors c fd (last fd)) ∧
    ∀ u c', (updates H D).step c u = some c' → ∀ fd ≠ u.fd,
      c'.interest fd = c.interest fd ∧ c'.fdTable fd = c.fdTable fd := by
  refine ⟨?_, fun u c' hs fd hne => u.frame_step hs hne⟩
  have hall : c.Registered ∧ ∀ fd, Monitors c fd (last fd) := by
    refine h.invariant (I := fun p => p.1.Registered ∧ ∀ fd, Monitors p.1 fd (p.2 fd)) ?_ ?_
    · rintro ⟨_, _⟩ ⟨⟨maxFd, isOpen, clock, rfl⟩, rfl⟩
      exact ⟨fun _ => rfl, fun _ => ⟨rfl, rfl, rfl⟩⟩
    · rintro ⟨c, last⟩ u ⟨c', last'⟩ ⟨hreg, hmon⟩ - hstep
      obtain ⟨hs, rfl⟩ := System.withHistory_step.mp hstep
      refine ⟨u.registered_step hreg hs, fun fd => ?_⟩
      by_cases hfd : fd = u.fd
      · subst hfd
        show Monitors c' u.fd (Function.update last u.fd (some u) u.fd)
        rw [Function.update_self]
        exact u.monitors_step hreg hs
      · obtain ⟨hinterest, htable⟩ := u.frame_step hs hfd
        show Monitors c' fd (Function.update last u.fd (some u) fd)
        rw [Function.update_of_ne hfd]
        exact (hmon fd).congr hinterest htable
  exact hall.2

/-- A handler for reading, then one for writing. -/
def readThenWrite : List (Update ℕ ℕ) :=
  [.commUpdateReadHandler 4 (some 1) none, .commUpdateWriteHandler 4 (some 2) none]

lemma updates_init : (updates ℕ ℕ).init (.commInit 8 (fun _ => true) 0) :=
  ⟨8, fun _ => true, 0, rfl⟩

theorem monitored_by_last_write : ∃ c last,
    ((updates ℕ ℕ).withHistory (fun _ => none) recordLast).Reachable (c, last) ∧
    last 4 = some (.commUpdateWriteHandler 4 (some 2) none) ∧ Monitors c 4 (last 4) := by
  have hrun : ∃ p, ((updates ℕ ℕ).withHistory (fun _ => none) recordLast).exec
      (.commInit 8 (fun _ => true) 0, fun _ => none) readThenWrite = some p ∧
      p.2 4 = some (.commUpdateWriteHandler 4 (some 2) none) := ⟨_, rfl, rfl⟩
  obtain ⟨⟨c, last⟩, hs, hlast⟩ := hrun
  have hreach : ((updates ℕ ℕ).withHistory (fun _ => none) recordLast).Reachable (c, last) :=
    System.Reach.exec (.init ⟨updates_init, rfl⟩) (fun _ _ _ => trivial) hs
  exact ⟨c, last, hreach, hlast, (monitored_by_last hreach).1 4⟩

/-- Both handlers are in the table, and reading is not monitored. -/
theorem read_handler_not_monitored : ∃ c, (updates ℕ ℕ).Reachable c ∧
    (c.fdTable 4).readHandler = some 1 ∧ (c.fdTable 4).writeHandler = some 2 ∧
    c.interest 4 = some ⟨false, true, true, true⟩ ∧
    ¬ ∀ fd, (∃ ev ∈ c.interest fd, ev.epollin = true) ↔ (c.fdTable fd).readHandler.isSome := by
  have hrun : ((updates ℕ ℕ).exec (.commInit 8 (fun _ => true) 0) readThenWrite).map
      (fun c => ((c.fdTable 4).readHandler, (c.fdTable 4).writeHandler, c.interest 4)) =
      some (some 1, some 2, some ⟨false, true, true, true⟩) := by
    decide +kernel
  obtain ⟨c, hs, hvalues⟩ := Option.map_eq_some_iff.mp hrun
  simp only [Prod.mk.injEq] at hvalues
  obtain ⟨hread, hwrite, hinterest⟩ := hvalues
  refine ⟨c, System.Reach.exec (.init updates_init) (fun _ _ _ => trivial) hs, hread, hwrite,
    hinterest, fun hclaim => ?_⟩
  obtain ⟨ev, hev, hin⟩ := (hclaim 4).mpr (by rw [hread]; rfl)
  rw [hinterest] at hev
  cases hev
  cases hin

end ShareBike.Comm
