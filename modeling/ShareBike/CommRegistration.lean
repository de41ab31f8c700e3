import ShareBike.CommTable
import ShareBike.Lib.Transition
import Mathlib.Data.Finset.Card

/-!
# The cached masks and the kernel

`epollSetEvents` stores the new mask in `epoll_state` and counts the registration
before it knows what `epoll_ctl` answered. Here `epoll_ctl` may fail at any time.
A failure in `comm_close` does no harm, since the kernel forgets a descriptor that
is closed; any other failure leaves a mask behind that the kernel does not have.
-/
namespace ShareBike.Comm
open ShareBike.Lib

inductive Ctl
  | setEvents (fd : ℕ) (needRead needWrite ok : Bool)
  | close (fd : ℕ) (ok : Bool)
  deriving DecidableEq

/-- Any calls of `epollSetEvents` and `comm_close`, which asserts `fd > 0`. -/
def registrations (H D : Type) : System (Framework H D) Ctl where
  init c := ∃ maxFd isOpen clock, c = .commInit maxFd isOpen clock
  step c
    | .setEvents fd needRead needWrite ok => some (c.epollSetEvents fd needRead needWrite ok)
    | .close fd ok => if 0 < fd then some (c.commClose fd ok) else none

/-- The kernel accepts the operation for a descriptor with this registration. -/
def Accepts (old : Option Events) : CtlOp → Prop
  | .EPOLL_CTL_ADD => old = none
  | .EPOLL_CTL_MOD => old.isSome
  | .EPOLL_CTL_DEL => old.isSome

variable {H D : Type} {c : Framework H D} {fd : ℕ} {r w ok : Bool}

/-- The masks and the count are those of the kernel, and every operation that a call
would choose is one that the kernel accepts. -/
structure Agrees (c : Framework H D) : Prop where
  mask : ∀ fd, c.epollState fd = (c.interest fd).getD .zero
  count : ∃ registered : Finset ℕ, (∀ fd, fd ∈ registered ↔ (c.interest fd).isSome) ∧
    c.epollFds = registered.card
  valid : ∀ fd needRead needWrite, Events.wanted needRead needWrite ≠ c.epollState fd →
    Accepts (c.interest fd) (ctlType (c.epollState fd) (.wanted needRead needWrite))

/-- `epoll_fds` counts the descriptors with a mask in `epoll_state`. -/
def Counted (c : Framework H D) : Prop :=
  ∃ masked : Finset ℕ, (∀ fd, fd ∈ masked ↔ (c.epollState fd).nonzero) ∧
    c.epollFds = masked.card

lemma Events.eq_zero_iff (e : Events) : e.nonzero = false ↔ e = .zero := by
  obtain ⟨_ | _, _ | _, _ | _, _ | _⟩ := e <;> decide

lemma Events.nonzero_of_ne {e old : Events} (hne : e ≠ old) (h : e.nonzero = false) :
    old.nonzero = true := by
  rw [eq_zero_iff] at h
  by_contra hold
  rw [Bool.not_eq_true, eq_zero_iff] at hold
  exact hne (h.trans hold.symm)

/-- The count follows the masks whatever `epoll_ctl` answers. -/
lemma Counted.epollSetEvents (h : Counted c) : Counted (c.epollSetEvents fd r w ok) := by
  obtain ⟨masked, hmasked, hcount⟩ := h
  by_cases he : Events.wanted r w = c.epollState fd
  · rw [Framework.epollSetEvents_of_eq c fd r w ok he]
    exact ⟨masked, hmasked, hcount⟩
  · rw [Framework.epollSetEvents_of_ne c fd r w ok he, Counted]
    dsimp only
    -- the set may change at `fd` only
    have hsplit {masked' : Finset ℕ} (hself : fd ∈ masked' ↔ (Events.wanted r w).nonzero = true)
        (hkeep : ∀ g, g ≠ fd → (g ∈ masked' ↔ g ∈ masked)) : ∀ g, g ∈ masked' ↔
          (Function.update c.epollState fd (Events.wanted r w) g).nonzero = true := by
      intro g
      by_cases hg : g = fd
      · rw [hg, Function.update_self, hself]
      · rw [Function.update_of_ne hg, hkeep g hg, hmasked]
    cases hnew : (Events.wanted r w).nonzero with
    | false =>
      have hold := Events.nonzero_of_ne he hnew
      have hmem : fd ∈ masked := (hmasked fd).mpr hold
      refine ⟨masked.erase fd, hsplit (by simp [hnew]) fun g hg => by simp [hg], ?_⟩
      have hcard := Finset.card_erase_add_one hmem
      simp only [ctlType, hnew, if_true]
      show c.epollFds - 1 = ((masked.erase fd).card : ℤ)
      rw [hcount, ← hcard]
      omega
    | true =>
      cases hold : (c.epollState fd).nonzero with
      | false =>
        have hmem : fd ∉ masked := by
          rw [hmasked, hold]
          exact Bool.false_ne_true
        refine ⟨insert fd masked, hsplit (by simp [hnew]) fun g hg => by simp [hg], ?_⟩
        rw [Finset.card_insert_of_notMem hmem]
        simp [ctlType, hnew, hold, hcount]
      | true =>
        refine ⟨masked, hsplit (by simp [hnew, hmasked, hold]) fun g _ => Iff.rfl, ?_⟩
        simp [ctlType, hnew, hold, hcount]

lemma Counted.commClose (h : Counted c) : Counted (c.commClose fd ok) := by
  have hset : Counted (c.setFde fd .zero) := h
  have hclosed : Counted ((c.setFde fd .zero).epollSetEvents fd false false ok) :=
    hset.epollSetEvents
  exact hclosed

/-- Closing a descriptor undoes its registration even if `epoll_ctl` fails. -/
lemma Registered.close_any (h : c.Registered) : (c.commClose fd ok).Registered := by
  intro g
  rw [Framework.commClose_epollState]
  by_cases hg : g = fd
  · subst hg
    simp [Framework.commClose, Framework.close, Events.zero, Events.nonzero]
  · rw [Framework.commClose_interest_of_ne c fd ok hg, Function.update_of_ne hg]
    exact h g

/-- What is known of the masks as long as no registration failed. -/
structure Faithful (c : Framework H D) : Prop where
  registered : c.Registered
  counted : Counted c

lemma Faithful.agrees (h : Faithful c) : Agrees c := by
  have hsome : ∀ fd, (c.interest fd).isSome ↔ (c.epollState fd).nonzero = true := by
    intro fd
    rw [h.registered.eq fd]
    cases (c.epollState fd).nonzero <;> simp
  refine ⟨?_, ?_, ?_⟩
  · intro fd
    rw [h.registered.eq fd]
    cases hz : (c.epollState fd).nonzero with
    | false => exact (Events.eq_zero_iff _).mp hz
    | true => rfl
  · obtain ⟨masked, hmasked, hcount⟩ := h.counted
    exact ⟨masked, fun fd => (hmasked fd).trans (hsome fd).symm, hcount⟩
  · intro fd needRead needWrite hne
    have hold := hsome fd
    simp only [ctlType]
    split_ifs with hdel hmod
    · exact hold.mpr (Events.nonzero_of_ne hne hdel)
    · exact hold.mpr hmod
    · rw [Accepts, ← Option.not_isSome_iff_eq_none, hold]
      exact hmod

/-- If `epollSetEvents` calls `epoll_ctl`, the call succeeds. -/
def CtlSucceeds (c : Framework H D) : Ctl → Prop
  | .setEvents fd needRead needWrite ok =>
    ok = true ∨ Events.wanted needRead needWrite = c.epollState fd
  | .close .. => True

lemma Faithful.step {c' : Framework H D} {a : Ctl} (h : Faithful c) (hok : CtlSucceeds c a)
    (hs : (registrations H D).step c a = some c') : Faithful c' := by
  cases a with
  | setEvents fd needRead needWrite ok =>
    cases hs
    refine ⟨?_, h.counted.epollSetEvents⟩
    rcases hok with rfl | hsame
    · exact h.registered.epollSetEvents fd needRead needWrite
    · rw [Framework.epollSetEvents_of_eq c fd needRead needWrite ok hsame]
      exact h.registered
  | close fd ok =>
    obtain ⟨-, he⟩ := Option.ite_none_right_eq_some.mp hs
    cases he
    exact ⟨Registered.close_any h.registered, h.counted.commClose⟩

/-- A registration that failed leaves its mask in `epoll_state`. -/
lemma failed_disagrees {c' : Framework H D} {a : Ctl} (h : Faithful c) (hno : ¬ CtlSucceeds c a)
    (hs : (registrations H D).step c a = some c') : ¬ Agrees c' := by
  cases a with
  | setEvents fd needRead needWrite ok =>
    cases hs
    obtain ⟨hfail, hne⟩ := not_or.mp hno
    rw [Bool.not_eq_true] at hfail
    subst hfail
    intro hagrees
    have hinterest : (c.epollSetEvents fd needRead needWrite false).interest = c.interest := by
      rw [Framework.epollSetEvents]
      split <;> rfl
    have hmask := hagrees.mask fd
    rw [hinterest, Framework.epollSetEvents_epollState, Function.update_self,
      ← h.agrees.mask fd] at hmask
    exact hne hmask
  | close fd ok => exact absurd trivial hno

lemma faithful_commInit (maxFd : ℕ) (isOpen : ℕ → Bool) (clock : ℕ) :
    Faithful (.commInit maxFd isOpen clock : Framework H D) :=
  ⟨fun _ => rfl, ∅, fun _ => by simp [Framework.commInit, Events.zero, Events.nonzero], rfl⟩

/-- In a run of calls of `epollSetEvents` and `comm_close` the masks and the count
agree with the kernel, in every state, exactly if every `epoll_ctl` succeeds that
`epollSetEvents` makes outside `comm_close`. -/
theorem masks_agree_iff (H D : Type) (maxFd : ℕ) (isOpen : ℕ → Bool) (clock : ℕ)
    (acts : List Ctl) :
    (registrations H D).Throughout Agrees (.commInit maxFd isOpen clock) acts ↔
      (registrations H D).Along CtlSucceeds (.commInit maxFd isOpen clock) acts :=
  System.throughout_iff_along (I := Faithful) (fun _ h => h.agrees)
    (fun _ _ _ h hok hs => h.step hok hs) (fun _ _ _ h hno hs => failed_disagrees h hno hs)
    (faithful_commInit maxFd isOpen clock) acts

/-- The registration of a new connection fails: it is believed to exist. -/
theorem failed_registration_kept : ∃ c, (registrations Unit Unit).Reachable c ∧
    c.interest 4 = none ∧ c.epollState 4 = .wanted false true ∧ c.epollFds = 1 ∧ ¬ Agrees c := by
  have hrun : ((registrations Unit Unit).exec (.commInit 102400 (fun _ => true) 0)
      [.setEvents 4 false true false]).map
        (fun c => (c.interest 4, c.epollState 4, c.epollFds)) =
      some (none, .wanted false true, 1) := by
    decide +kernel
  obtain ⟨c, hc, hvalues⟩ := Option.map_eq_some_iff.mp hrun
  simp only [Prod.mk.injEq] at hvalues
  obtain ⟨hinterest, hstate, hfds⟩ := hvalues
  refine ⟨c, System.Reach.exec (.init ⟨_, _, _, rfl⟩) (fun _ _ _ => trivial) hc, hinterest,
    hstate, hfds, fun hagrees => ?_⟩
  have hmask := hagrees.mask 4
  rw [hinterest, hstate] at hmask
  exact absurd hmask (by decide)

end ShareBike.Comm
