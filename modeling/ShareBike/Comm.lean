import Mathlib.Data.Int.Notation
import Mathlib.Data.List.Basic
import Mathlib.Logic.Function.Basic
import ShareBike.Lib.Posix

/-!
# The event framework

A table of handlers indexed by descriptor, the event masks that were passed to
`epoll_ctl`, and the kernel's side of both: which descriptors are open and what
the interest set holds. Handlers are names that the application interprets; a
call of a handler may change the table and everything else.

Times are microseconds, so the code's arithmetic on `double` seconds is exact.
Each index used with `fd_table` or `epoll_state` is recorded; the tables are
functions, and an entry that nobody wrote is zero.

The texts for `debug` are left out, with `xstrerror` for those of a failed `epoll_ctl`:
it calls `strerror` without a declaration.
-/
namespace ShareBike.Comm
open ShareBike.Lib

/-- An event mask, by its bits. -/
structure Events where
  epollin : Bool
  epollout : Bool
  epollerr : Bool
  epollhup : Bool
  deriving DecidableEq, Repr

namespace Events

def zero : Events := ⟨false, false, false, false⟩

def nonzero (e : Events) : Bool := e.epollin || e.epollout || e.epollerr || e.epollhup

/-- The mask that `epollSetEvents` builds. -/
def wanted (needRead needWrite : Bool) : Events :=
  ⟨needRead, needWrite, needRead || needWrite, needRead || needWrite⟩

/-- `EPOLLHUP` or `EPOLLERR` is set. -/
def broken (e : Events) : Bool := e.epollerr || e.epollhup

/-- A mask that the kernel may report for a registered one. -/
def Within (e r : Events) : Prop :=
  (e.epollin = true → r.epollin = true) ∧ (e.epollout = true → r.epollout = true)

instance (e r : Events) : Decidable (e.Within r) := inferInstanceAs (Decidable (_ ∧ _))

end Events

/-- The fields of `struct _fde` that the framework uses. -/
structure Fde (H D : Type) where
  readHandler : Option H
  readData : Option D
  writeHandler : Option H
  writeData : Option D
  timeoutHandler : Option H
  timeout : ℤ
  timeoutData : Option D
  deriving DecidableEq

def Fde.zero {H D : Type} : Fde H D := ⟨none, none, none, none, none, 0, none⟩

structure Framework (H D : Type) where
  biggestFd : ℕ
  fdTable : ℕ → Fde H D
  epollState : ℕ → Events
  epollFds : ℤ
  interest : ℕ → Option Events
  isOpen : ℕ → Bool
  clock : ℕ
  currentDtime : ℕ
  sysCurtime : ℕ
  lastTimeout : ℕ
  accessed : List ℕ

/-- `epoll_ctl_type`, chosen from the registered and the wanted mask. -/
def ctlType (old ev : Events) : CtlOp :=
  if ev.nonzero = false then .EPOLL_CTL_DEL
  else if old.nonzero then .EPOLL_CTL_MOD
  else .EPOLL_CTL_ADD

/-- A batch that `epoll_wait` may report. -/
def Batch (interest : ℕ → Option Events) (evs : List (ℕ × Events)) : Prop :=
  evs.length ≤ 256 ∧ (evs.map Prod.fst).Nodup ∧
    ∀ e ∈ evs, e.2.nonzero = true ∧ ∃ r ∈ interest e.1, e.2.Within r

instance (interest : ℕ → Option Events) (evs : List (ℕ × Events)) :
    Decidable (Batch interest evs) := inferInstanceAs (Decidable (_ ∧ _ ∧ _))

namespace Framework

variable {H D : Type} (c : Framework H D)

def access (fd : ℕ) : Framework H D := { c with accessed := fd :: c.accessed }

/-- `ok` is whether the kernel carries out the request. -/
def epollSetEvents (fd : ℕ) (needRead needWrite ok : Bool) : Framework H D :=
  let c := c.access fd
  let ev := Events.wanted needRead needWrite
  if ev = c.epollState fd then c
  else
    let op := ctlType (c.epollState fd) ev
    { c with
      epollState := Function.update c.epollState fd ev
      interest := epollCtl c.interest op fd ev ok
      epollFds := match op with
        | .EPOLL_CTL_ADD => c.epollFds + 1
        | .EPOLL_CTL_DEL => c.epollFds - 1
        | .EPOLL_CTL_MOD => c.epollFds }

/-- `close`; the kernel also forgets the descriptor's registration. -/
def close (fd : ℕ) : Framework H D :=
  { c with
    isOpen := Function.update c.isOpen fd false
    interest := Function.update c.interest fd none }

def setFde (fd : ℕ) (f : Fde H D) : Framework H D :=
  { c.access fd with fdTable := Function.update c.fdTable fd f }

def commClose (fd : ℕ) (ok : Bool) : Framework H D :=
  ((c.setFde fd .zero).epollSetEvents fd false false ok).close fd

def commSetTimeout (fd : ℕ) (timeout : ℤ) (handler : Option H) (data : Option D) : Framework H D :=
  let f := c.fdTable fd
  if timeout < 0 then
    c.setFde fd { f with timeoutHandler := none, timeoutData := none, timeout := 0 }
  else
    let f := if handler.isSome || data.isSome then
      { f with timeoutHandler := handler, timeoutData := data } else f
    c.setFde fd { f with timeout := c.sysCurtime + timeout }

def commUpdateReadHandler (fd : ℕ) (handler : Option H) (data : Option D) (ok : Bool) :
    Framework H D :=
  (c.setFde fd { c.fdTable fd with readHandler := handler, readData := data }).epollSetEvents
    fd true false ok

def commUpdateWriteHandler (fd : ℕ) (handler : Option H) (data : Option D) (ok : Bool) :
    Framework H D :=
  (c.setFde fd { c.fdTable fd with writeHandler := handler, writeData := data }).epollSetEvents
    fd false true ok

def getCurrentTime : Framework H D :=
  { c with currentDtime := c.clock, sysCurtime := c.clock / 1000000 }

/-- The state after `comm_init`, when the descriptors in `isOpen` are open. -/
def commInit (maxFd : ℕ) (isOpen : ℕ → Bool) (clock : ℕ) : Framework H D where
  biggestFd := if maxFd > 0 then maxFd else 1024
  fdTable _ := .zero
  epollState _ := .zero
  epollFds := 0
  interest _ := none
  isOpen := isOpen
  clock := clock
  currentDtime := 0
  sysCurtime := 0
  lastTimeout := 0
  accessed := []

end Framework

/-- The framework together with the state of the application. -/
structure Server (H D α : Type) where
  comm : Framework H D
  app : α

/-- What the application's handlers do: `handler(fd, data)`. -/
abbrev Invoke (H D α : Type) := H → ℕ → Option D → Server H D α → Server H D α

variable {H D α : Type} (invoke : Invoke H D α)

namespace Server

variable (s : Server H D α)

def access (fd : ℕ) : Server H D α := { s with comm := s.comm.access fd }

/-- `if (F->read_handler && read_event)` -/
def callReadHandler (fd : ℕ) (readEvent : Events) : Server H D α :=
  match (s.comm.fdTable fd).readHandler with
  | some hdl => if readEvent.nonzero then invoke hdl fd (s.comm.fdTable fd).readData s else s
  | none => s

/-- `if (F->write_handler && write_event)` -/
def callWriteHandler (fd : ℕ) (writeEvent : Events) : Server H D α :=
  match (s.comm.fdTable fd).writeHandler with
  | some hdl => if writeEvent.nonzero then invoke hdl fd (s.comm.fdTable fd).writeData s else s
  | none => s

/-- The table is read again after the read handler has run. -/
def commCallHandlers (fd : ℕ) (readEvent writeEvent : Events) : Server H D α :=
  ((s.access fd).callReadHandler invoke fd readEvent).callWriteHandler invoke fd writeEvent

/-- One event of `do_epoll_select`: each direction is masked out of the other. -/
def dispatch (fd : ℕ) (ev : Events) : Server H D α :=
  s.commCallHandlers invoke fd { ev with epollout := false } { ev with epollin := false }

/-- The body of the loop of `checkTimeouts`. When it closes descriptor 0 the assertion of
`comm_close` that it is positive fails in the source; here the scan goes on. -/
def checkTimeout (fd : ℕ) : Server H D α :=
  let s := s.access fd
  let f := s.comm.fdTable fd
  if f.timeout = 0 then s
  else if f.timeout > s.comm.sysCurtime then s
  else
    match f.timeoutHandler with
    | some callback =>
      invoke callback fd f.timeoutData
        { s with comm := s.comm.setFde fd { f with timeoutHandler := none } }
    | none => { s with comm := s.comm.commClose fd true }

/-- `for (fd = 0; fd <= Biggest_FD; fd++)`. -/
def checkTimeouts : Server H D α :=
  (List.range (s.comm.biggestFd + 1)).foldl (fun s fd => s.checkTimeout invoke fd) s

/-- `comm_select` up to `epoll_wait`: the timeout that is passed to it, and the
state in which it is called. -/
def beforeWait (msec : ℤ) : ℤ × Server H D α :=
  let msec := if msec > 1000 then 1000 else msec
  if s.comm.lastTimeout + 999000 < s.comm.currentDtime then
    let s := { s with comm := { s.comm with lastTimeout := s.comm.currentDtime } }
    (msec, s.checkTimeouts invoke)
  else
    let maxTimeout := ((s.comm.lastTimeout : ℤ) + 1000000 - s.comm.currentDtime).tdiv 1000
    (if maxTimeout < msec then maxTimeout else msec, s)

end Server

end ShareBike.Comm
