import Mathlib.Data.List.Basic
import Mathlib.Logic.Function.Basic

/-!
# System calls

The results of `read`, and an interest set of `epoll` with what is stored for
each descriptor.
-/
namespace ShareBike.Lib

/-- What `read` returns; `error` is -1. -/
inductive ReadRes
  | data (bytes : List UInt8)
  | closed
  | error
  deriving DecidableEq

inductive CtlOp
  | EPOLL_CTL_ADD
  | EPOLL_CTL_MOD
  | EPOLL_CTL_DEL
  deriving DecidableEq

variable {E : Type}

/-- `epoll_ctl`: the kernel refuses to add twice, and to change or delete what is
not registered; besides, the call may fail for reasons of its own. -/
def epollCtl (interest : ℕ → Option E) (op : CtlOp) (fd : ℕ) (ev : E) (ok : Bool) :
    ℕ → Option E :=
  if ok then
    match op, interest fd with
    | .EPOLL_CTL_ADD, none => Function.update interest fd (some ev)
    | .EPOLL_CTL_MOD, some _ => Function.update interest fd (some ev)
    | .EPOLL_CTL_DEL, some _ => Function.update interest fd none
    | _, _ => interest
  else interest

variable {interest : ℕ → Option E} {fd : ℕ} {old : E}

lemma epollCtl_of_ne {g : ℕ} (h : g ≠ fd) (op : CtlOp) (ev : E) (ok : Bool) :
    epollCtl interest op fd ev ok g = interest g := by
  cases ok with
  | false => rfl
  | true =>
    cases op <;> cases hi : interest fd <;> simp [epollCtl, hi, Function.update_of_ne h]

lemma epollCtl_add (h : interest fd = none) (ev : E) :
    epollCtl interest .EPOLL_CTL_ADD fd ev true = Function.update interest fd (some ev) := by
  simp [epollCtl, h]

lemma epollCtl_mod (h : interest fd = some old) (ev : E) :
    epollCtl interest .EPOLL_CTL_MOD fd ev true = Function.update interest fd (some ev) := by
  simp [epollCtl, h]

lemma epollCtl_del (h : interest fd = some old) (ev : E) :
    epollCtl interest .EPOLL_CTL_DEL fd ev true = Function.update interest fd none := by
  simp [epollCtl, h]

end ShareBike.Lib
