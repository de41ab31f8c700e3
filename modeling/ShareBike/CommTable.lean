import ShareBike.Comm

/-!
# What the framework's functions do to the tables

One lemma for each table and function, and the agreement between `epoll_state`
and the kernel's interest set, which holds as long as `epoll_ctl` succeeds. What
all handlers keep, an event and a timeout scan keep.
-/
namespace ShareBike.Comm
open ShareBike.Lib

/-- The events of one direction that call its handler. -/
lemma Events.nonzero_read (ev : Events) :
    ({ ev with epollout := false } : Events).nonzero = (ev.epollin || ev.broken) := by
  simp [Events.nonzero, Events.broken, Bool.or_assoc]

lemma Events.nonzero_write (ev : Events) :
    ({ ev with epollin := false } : Events).nonzero = (ev.epollout || ev.broken) := by
  simp [Events.nonzero, Events.broken, Bool.or_assoc]

namespace Framework

variable {H D : Type} (c : Framework H D) (fd : ℕ) (r w ok : Bool)

@[simp] lemma setFde_fdTable (f : Fde H D) :
    (c.setFde fd f).fdTable = Function.update c.fdTable fd f := rfl

@[simp] lemma setFde_epollState (f : Fde H D) : (c.setFde fd f).epollState = c.epollState := rfl

@[simp] lemma setFde_interest (f : Fde H D) : (c.setFde fd f).interest = c.interest := rfl

@[simp] lemma setFde_isOpen (f : Fde H D) : (c.setFde fd f).isOpen = c.isOpen := rfl

@[simp] lemma close_fdTable : (c.close fd).fdTable = c.fdTable := rfl

@[simp] lemma close_epollState : (c.close fd).epollState = c.epollState := rfl

@[simp] lemma close_isOpen : (c.close fd).isOpen = Function.update c.isOpen fd false := rfl

/-- A mask that is already stored makes no call of `epoll_ctl`. -/
lemma epollSetEvents_of_eq (h : Events.wanted r w = c.epollState fd) :
    c.epollSetEvents fd r w ok = c.access fd := by
  simp only [epollSetEvents]
  exact if_pos h

lemma epollSetEvents_of_ne (h : Events.wanted r w ≠ c.epollState fd) :
    c.epollSetEvents fd r w ok =
      let op := ctlType (c.epollState fd) (.wanted r w)
      { c.access fd with
        epollState := Function.update c.epollState fd (.wanted r w)
        interest := epollCtl c.interest op fd (.wanted r w) ok
        epollFds := match op with
          | .EPOLL_CTL_ADD => c.epollFds + 1
          | .EPOLL_CTL_DEL => c.epollFds - 1
          | .EPOLL_CTL_MOD => c.epollFds } := by
  simp only [epollSetEvents]
  exact if_neg h

/-- `epoll_ctl` changes the registration of one descriptor. -/
lemma epollSetEvents_interest_of_ne {g : ℕ} (h : g ≠ fd) :
    (c.epollSetEvents fd r w ok).interest g = c.interest g := by
  rw [epollSetEvents]
  split
  · rfl
  · exact epollCtl_of_ne h _ _ ok

lemma commClose_interest_of_ne {g : ℕ} (h : g ≠ fd) :
    (c.commClose fd ok).interest g = c.interest g := by
  simp only [commClose, close, Function.update_of_ne h]
  exact epollSetEvents_interest_of_ne (c.setFde fd .zero) fd false false ok h

@[simp] lemma epollSetEvents_fdTable : (c.epollSetEvents fd r w ok).fdTable = c.fdTable := by
  rw [epollSetEvents]
  split <;> rfl

@[simp] lemma epollSetEvents_isOpen : (c.epollSetEvents fd r w ok).isOpen = c.isOpen := by
  rw [epollSetEvents]
  split <;> rfl

@[simp] lemma epollSetEvents_epollState : (c.epollSetEvents fd r w ok).epollState =
    Function.update c.epollState fd (Events.wanted r w) := by
  simp only [epollSetEvents]
  split_ifs with h
  · rw [h]
    exact (Function.update_eq_self fd c.epollState).symm
  · rfl

@[simp] lemma commClose_fdTable :
    (c.commClose fd ok).fdTable = Function.update c.fdTable fd .zero := by
  simp [commClose]

@[simp] lemma commClose_epollState :
    (c.commClose fd ok).epollState = Function.update c.epollState fd .zero := by
  simp only [commClose, close_epollState, epollSetEvents_epollState, setFde_epollState]
  rfl

@[simp] lemma commClose_isOpen :
    (c.commClose fd ok).isOpen = Function.update c.isOpen fd false := by
  simp [commClose]

@[simp] lemma commSetTimeout_epollState (t : ℤ) (h : Option H) (d : Option D) :
    (c.commSetTimeout fd t h d).epollState = c.epollState := by
  simp only [commSetTimeout]
  split <;> rfl

@[simp] lemma commSetTimeout_isOpen (t : ℤ) (h : Option H) (d : Option D) :
    (c.commSetTimeout fd t h d).isOpen = c.isOpen := by
  simp only [commSetTimeout]
  split <;> rfl

@[simp] lemma commSetTimeout_interest (t : ℤ) (h : Option H) (d : Option D) :
    (c.commSetTimeout fd t h d).interest = c.interest := by
  simp only [commSetTimeout]
  split <;> rfl

/-- Arming a timeout with a handler. -/
lemma commSetTimeout_fdTable {t : ℤ} (ht : 0 ≤ t) (h : H) (d : Option D) :
    (c.commSetTimeout fd t (some h) d).fdTable = Function.update c.fdTable fd
      { c.fdTable fd with
        timeoutHandler := some h, timeoutData := d, timeout := c.sysCurtime + t } := by
  simp [commSetTimeout, Int.not_lt.mpr ht]

@[simp] lemma commUpdateReadHandler_fdTable (h : Option H) (d : Option D) :
    (c.commUpdateReadHandler fd h d ok).fdTable = Function.update c.fdTable fd
      { c.fdTable fd with readHandler := h, readData := d } := by
  simp [commUpdateReadHandler]

@[simp] lemma commUpdateReadHandler_epollState (h : Option H) (d : Option D) :
    (c.commUpdateReadHandler fd h d ok).epollState =
      Function.update c.epollState fd (Events.wanted true false) := by
  simp [commUpdateReadHandler]

@[simp] lemma commUpdateReadHandler_isOpen (h : Option H) (d : Option D) :
    (c.commUpdateReadHandler fd h d ok).isOpen = c.isOpen := by
  simp [commUpdateReadHandler]

@[simp] lemma commUpdateWriteHandler_fdTable (h : Option H) (d : Option D) :
    (c.commUpdateWriteHandler fd h d ok).fdTable = Function.update c.fdTable fd
      { c.fdTable fd with writeHandler := h, writeData := d } := by
  simp [commUpdateWriteHandler]

@[simp] lemma commUpdateWriteHandler_epollState (h : Option H) (d : Option D) :
    (c.commUpdateWriteHandler fd h d ok).epollState =
      Function.update c.epollState fd (Events.wanted false true) := by
  simp [commUpdateWriteHandler]

@[simp] lemma commUpdateWriteHandler_isOpen (h : Option H) (d : Option D) :
    (c.commUpdateWriteHandler fd h d ok).isOpen = c.isOpen := by
  simp [commUpdateWriteHandler]

/-- A handler and a timeout that are installed one after the other. -/
lemma commUpdateReadHandler_commSetTimeout {t : ℤ} (ht : 0 ≤ t) (h h' : H) (d d' : Option D) :
    ((c.commUpdateReadHandler fd (some h) d ok).commSetTimeout fd t (some h') d').fdTable =
      Function.update c.fdTable fd
        { c.fdTable fd with
          readHandler := some h, readData := d, timeoutHandler := some h', timeoutData := d'
          timeout := (c.commUpdateReadHandler fd (some h) d ok).sysCurtime + t } := by
  rw [commSetTimeout_fdTable _ _ ht, commUpdateReadHandler_fdTable, Function.update_self,
    Function.update_idem]

lemma commUpdateWriteHandler_commSetTimeout {t : ℤ} (ht : 0 ≤ t) (h h' : H) (d d' : Option D) :
    ((c.commUpdateWriteHandler fd (some h) d ok).commSetTimeout fd t (some h') d').fdTable =
      Function.update c.fdTable fd
        { c.fdTable fd with
          writeHandler := some h, writeData := d, timeoutHandler := some h', timeoutData := d'
          timeout := (c.commUpdateWriteHandler fd (some h) d ok).sysCurtime + t } := by
  rw [commSetTimeout_fdTable _ _ ht, commUpdateWriteHandler_fdTable, Function.update_self,
    Function.update_idem]

/-- The kernel's interest set is what `epoll_state` says. -/
def Registered : Prop :=
  ∀ fd, c.interest fd = if (c.epollState fd).nonzero then some (c.epollState fd) else none

variable {c}

lemma Registered.eq (h : c.Registered) (fd : ℕ) :
    c.interest fd = if (c.epollState fd).nonzero then some (c.epollState fd) else none := h fd

/-- The request that `epollSetEvents` makes is one that the kernel accepts. -/
lemma epollCtl_self {interest : ℕ → Option Events} {old ev : Events}
    (h : interest fd = if old.nonzero then some old else none) (hne : ev ≠ old) :
    epollCtl interest (ctlType old ev) fd ev true fd =
      if ev.nonzero then some ev else none := by
  cases hold : old.nonzero <;> cases hnew : ev.nonzero <;>
    simp only [hold, if_true, Bool.false_eq_true, if_false] at h
  · -- two masks without a bit are equal
    have hzero : ∀ e : Events, e.nonzero = false → e = .zero := by
      rintro ⟨_ | _, _ | _, _ | _, _ | _⟩ hz <;> first | rfl | cases hz
    exact absurd ((hzero ev hnew).trans (hzero old hold).symm) hne
  · have hop : ctlType old ev = .EPOLL_CTL_ADD := by simp [ctlType, hold, hnew]
    rw [hop, epollCtl_add h, Function.update_self, if_pos rfl]
  · have hop : ctlType old ev = .EPOLL_CTL_DEL := by simp [ctlType, hnew]
    rw [hop, epollCtl_del h, Function.update_self, if_neg Bool.false_ne_true]
  · have hop : ctlType old ev = .EPOLL_CTL_MOD := by simp [ctlType, hold, hnew]
    rw [hop, epollCtl_mod h, Function.update_self, if_pos rfl]

lemma Registered.epollSetEvents (h : c.Registered) :
    (c.epollSetEvents fd r w true).Registered := by
  intro g
  by_cases he : Events.wanted r w = c.epollState fd
  · rw [epollSetEvents_of_eq c fd r w true he]
    exact h.eq g
  · rw [epollSetEvents_epollState]
    by_cases hgf : g = fd
    · subst hgf
      rw [epollSetEvents_of_ne c g r w true he, Function.update_self]
      exact epollCtl_self g (h.eq g) he
    · rw [epollSetEvents_interest_of_ne c fd r w true hgf, Function.update_of_ne hgf]
      exact h.eq g

lemma Registered.close (h : c.Registered) (hz : c.epollState fd = .zero) :
    (c.close fd).Registered := by
  intro g
  by_cases hgf : g = fd
  · subst hgf
    simp [Framework.close, hz, Events.zero, Events.nonzero]
  · simp only [Framework.close, Function.update_of_ne hgf]
    exact h g

lemma Registered.commClose (h : c.Registered) : (c.commClose fd true).Registered := by
  have hset : (c.setFde fd .zero).Registered := h
  refine (hset.epollSetEvents fd false false).close fd ?_
  simp only [epollSetEvents_epollState, Function.update_self]
  rfl

lemma Registered.commSetTimeout (h : c.Registered) (t : ℤ) (hdl : Option H) (d : Option D) :
    (c.commSetTimeout fd t hdl d).Registered := by
  intro g
  rw [commSetTimeout_interest, commSetTimeout_epollState]
  exact h g

lemma Registered.commUpdateReadHandler (h : c.Registered) (hdl : Option H) (d : Option D) :
    (c.commUpdateReadHandler fd hdl d true).Registered := by
  have hset : (c.setFde fd { c.fdTable fd with readHandler := hdl, readData := d }).Registered :=
    h
  exact hset.epollSetEvents fd true false

lemma Registered.commUpdateWriteHandler (h : c.Registered) (hdl : Option H) (d : Option D) :
    (c.commUpdateWriteHandler fd hdl d true).Registered := by
  have hset :
      (c.setFde fd { c.fdTable fd with writeHandler := hdl, writeData := d }).Registered := h
  exact hset.epollSetEvents fd false true

end Framework

namespace Server

variable {H D α : Type} {invoke : Invoke H D α} {P : Server H D α → Prop} {fd : ℕ}
  {s : Server H D α}

/-- What every handler keeps at `fd`, an event at `fd` keeps. -/
lemma dispatch_invariant (haccess : ∀ s, P s → P (s.access fd))
    (hinvoke : ∀ hdl data s, P s → P (invoke hdl fd data s)) (h : P s) (ev : Events) :
    P (s.dispatch invoke fd ev) := by
  have hread : ∀ e : Events, P ((s.access fd).callReadHandler invoke fd e) := by
    intro e
    rw [callReadHandler]
    split
    · split_ifs
      · exact hinvoke _ _ _ (haccess s h)
      · exact haccess s h
    · exact haccess s h
  simp only [dispatch, commCallHandlers]
  rw [callWriteHandler]
  split
  · split_ifs
    · exact hinvoke _ _ _ (hread _)
    · exact hread _
  · exact hread _

/-- What the scan of one descriptor keeps, the whole scan keeps. -/
lemma checkTimeouts_invariant (hscan : ∀ s fd, P s → P (s.checkTimeout invoke fd)) (h : P s) :
    P (s.checkTimeouts invoke) := by
  simp only [checkTimeouts]
  generalize List.range _ = fds
  induction fds generalizing s with
  | nil => exact h
  | cons fd fds ih => exact ih (hscan s fd h)

lemma beforeWait_invariant (hscan : ∀ s fd, P s → P (s.checkTimeout invoke fd))
    (htimer : ∀ s n, P s → P { s with comm := { s.comm with lastTimeout := n } }) (h : P s)
    (msec : ℤ) : P (s.beforeWait invoke msec).2 := by
  simp only [beforeWait]
  by_cases hlt : s.comm.lastTimeout + 999000 < s.comm.currentDtime
  · rw [if_pos hlt]
    exact checkTimeouts_invariant hscan (htimer s _ h)
  · rw [if_neg hlt]
    exact h

end Server

end ShareBike.Comm
