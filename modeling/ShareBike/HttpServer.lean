import ShareBike.HttpRequest
import ShareBike.Lib.Posix
import ShareBike.Lib.Transition

/-!
# The HTTP servers

One event loop, compiled in two ways. In `test/` all functions share the variable
`epfd`. In the other server `epoll_server.h` defines it as `static`, so `main.c` and
`epoll_server.c` have one each, and only `main` assigns to its own.

`main` calls `epoll_wait` for ever. What `accept`, `malloc` and `read` return is part
of the label of the step that handles an event. A step may end the process.
-/
namespace ShareBike.Http
open ShareBike.Lib

/-- What ends the process: a string search from `NULL`, the use of a `ConnectStat`
that is not live, or a call through a handler that is `NULL` or no function. -/
inductive Fault
  | nullString
  | badStat
  | nullHandler
  | badHandler
  deriving DecidableEq

/-- What is written to a client. -/
inductive Page
  | welcome
  | commit (name age : List UInt8)
  deriving DecidableEq

/-- The memory, by the addresses of the `ConnectStat`s, the open descriptors, the
interest set of the epoll instance with `_ev.events` and `_ev.data`, and the two
variables `epfd`; the instance is the one that `main` has created. -/
structure Server where
  heap : ℕ → Option ConnectStat
  isOpen : ℕ → Bool
  interest : ℕ → Option (ℕ × ℕ)
  listenSock : ℕ
  mainEpfd : ℕ
  serverEpfd : ℕ
  sent : List (ℕ × Page)

namespace Server

variable (s : Server)

/-- `epoll_ctl` on the instance of `main`; with any other descriptor it fails. -/
def epollCtl (epfd : ℕ) (op : CtlOp) (fd : ℕ) (ev : ℕ × ℕ) : Server :=
  { s with interest := Lib.epollCtl s.interest op fd ev (epfd = s.mainEpfd && s.isOpen fd) }

/-- `close`; the kernel also forgets the descriptor's registration. -/
def close (fd : ℕ) : Server :=
  { s with
    isOpen := Function.update s.isOpen fd false
    interest := Function.update s.interest fd none }

def setStat (p : ℕ) (stat : ConnectStat) : Server :=
  { s with heap := Function.update s.heap p (some stat) }

def free (p : ℕ) : Server := { s with heap := Function.update s.heap p none }

/-- `epoll_ctl(epfd, op, stat->fd, &stat->_ev)` -/
def register (op : CtlOp) (stat : ConnectStat) : Server :=
  s.epollCtl s.serverEpfd op (stat.get .fd) (stat.get .events, stat.get .data)

/-- `p` is what `malloc` returns in `stat_init`. -/
def connectHandle (newFd p : ℕ) : Server :=
  let stat := ((statInit newFd).set .events EPOLLIN).set .data p
  (s.setStat p stat).epollCtl s.serverEpfd .EPOLL_CTL_ADD newFd
    (stat.get .events, stat.get .data)

/-- The two handlers: a page is written, and the client is read from again. -/
def respond (p : ℕ) (stat : ConnectStat) (page : Page) : Server :=
  let stat' := stat.set .events EPOLLIN
  let s := { s with sent := (stat.get .fd, page) :: s.sent }
  (s.setStat p stat').register .EPOLL_CTL_MOD stat'

def welcomeResponseHandler (p : ℕ) (stat : ConnectStat) : Server :=
  s.respond p stat .welcome

def commitResponeHandler (p : ℕ) (stat : ConnectStat) : Server :=
  s.respond p stat (.commit (stat.text .name) (stat.text .age))

/-- A descriptor that was accepted and not closed. -/
def IsClient (fd : ℕ) : Prop :=
  s.isOpen fd = true ∧ fd ≠ 0 ∧ fd ≠ s.listenSock ∧ fd ≠ s.mainEpfd

variable (code : Code)

/-- `stat->handler(stat)` -/
def doHttpRespone (p : ℕ) : Except Fault Server :=
  match s.heap p with
  | none => .error .badStat
  | some stat =>
    if stat.get .handler = code.addr .welcomeResponseHandler then
      .ok (s.welcomeResponseHandler p stat)
    else if stat.get .handler = code.addr .commitResponeHandler then
      .ok (s.commitResponeHandler p stat)
    else if stat.get .handler = 0 then .error .nullHandler
    else .error .badHandler

def doHttpRequest (read : ReadRes) (p : ℕ) : Except Fault Server :=
  match s.heap p with
  | none => .error .badStat
  | some stat =>
    match read with
    | .data bytes =>
      match parse (cstr bytes) with
      | none => .error .nullString
      | some r =>
        let stat' := stat.storeAll (r.stores code)
        .ok ((s.setStat p stat').register .EPOLL_CTL_MOD stat')
    | .closed =>
      let fd := stat.get .fd
      .ok (((s.epollCtl s.serverEpfd .EPOLL_CTL_DEL fd (0, 0)).close fd).free p)
    | .error => .ok s

end Server

/-- The answers of the system calls in one step; `accept` fails with `none`, and
`addr` is what `malloc` returns. -/
structure Sys where
  accept : Option ℕ
  addr : ℕ
  read : ReadRes
  deriving DecidableEq

/-- The body of the `for` loop of `main`, for an event `events` with the pointer `p`.
The condition for the listening socket ends in `&& EPOLLIN`, which is true. -/
def handleEvent (code : Code) (sys : Sys) (events p : ℕ) (s : Server) : Except Fault Server :=
  match s.heap p with
  | none => .error .badStat
  | some stat =>
    if stat.get .fd = s.listenSock ∧ events ≠ 0 then
      match sys.accept with
      | none => .ok s
      | some newFd =>
        let s := { s with isOpen := Function.update s.isOpen newFd true }
        .ok (if newFd > 0 then s.connectHandle newFd sys.addr else s)
    else if events &&& EPOLLIN ≠ 0 then s.doHttpRequest code sys.read p
    else if events &&& EPOLLOUT ≠ 0 then s.doHttpRespone code p
    else .ok s

/-- `revs` holds the events that are still to be handled; it is `none` before
`epoll_wait`. -/
structure State where
  server : Server
  revs : Option (List (ℕ × ℕ))
  fault : Option Fault

/-- The kernel reports bits that are registered, `EPOLLERR` and `EPOLLHUP`. -/
def Reported (events registered : ℕ) : Prop :=
  events ≠ 0 ∧ events &&& (registered ||| EPOLLERR ||| EPOLLHUP) = events

instance (events registered : ℕ) : Decidable (Reported events registered) :=
  inferInstanceAs (Decidable (_ ∧ _))

/-- A batch that `epoll_wait` may report, by descriptors. -/
def Batch (interest : ℕ → Option (ℕ × ℕ)) (evs : List (ℕ × ℕ)) : Prop :=
  evs.length ≤ 64 ∧ (evs.map Prod.fst).Nodup ∧
    ∀ e ∈ evs, ∃ r ∈ interest e.1, Reported e.2 r.1

instance (interest : ℕ → Option (ℕ × ℕ)) (evs : List (ℕ × ℕ)) :
    Decidable (Batch interest evs) := inferInstanceAs (Decidable (_ ∧ _ ∧ _))

/-- What the program gets of such a batch: the bits and `data.ptr`. -/
def revsOf (interest : ℕ → Option (ℕ × ℕ)) (evs : List (ℕ × ℕ)) : List (ℕ × ℕ) :=
  evs.filterMap fun e => (interest e.1).map fun r => (e.2, r.2)

/-- `accept` returns a descriptor that was not open, `malloc` memory that is not in
use, and `read` at most as many bytes as it was asked for. -/
def Sys.Possible (sys : Sys) (s : Server) : Prop :=
  (∀ fd ∈ sys.accept, s.isOpen fd = false ∧ fd < 2 ^ 31) ∧
    (s.heap sys.addr = none ∧ sys.addr ≠ 0 ∧ sys.addr < 2 ^ 64) ∧
    match sys.read with
    | .data bytes => 1 ≤ bytes.length ∧ bytes.length ≤ 4095
    | _ => True

instance (sys : Sys) (s : Server) : Decidable (sys.Possible s) :=
  @instDecidableAnd _ _ inferInstance <| @instDecidableAnd _ _ inferInstance <|
    match sys.read with
    | .data _ => inferInstanceAs (Decidable (_ ∧ _))
    | .closed | .error => .isTrue trivial

inductive Act
  | wait (evs : List (ℕ × ℕ))
  | handle (sys : Sys)
  | done
  deriving DecidableEq

def step (code : Code) (s : State) (act : Act) : Option State :=
  match s.fault, act, s.revs with
  | none, .wait evs, none =>
    if Batch s.server.interest evs then
      some { s with revs := some (revsOf s.server.interest evs) }
    else none
  | none, .handle sys, some ((events, p) :: revs) =>
    if sys.Possible s.server then
      match handleEvent code sys events p s.server with
      | .ok server => some ⟨server, some revs, none⟩
      | .error fault => some { s with fault := some fault }
    else none
  | none, .done, some [] => some { s with revs := none }
  | _, _, _ => none

/-- The server before its first `epoll_wait`, with the `ConnectStat` of the listening
socket at `p`; descriptor 0 is open too. `serverEpfd` is the variable of the functions
that `main` calls. -/
def start (listenSock mainEpfd serverEpfd p : ℕ) : State where
  server := {
    heap := Function.update (fun _ => none) p (some (statInit listenSock))
    isOpen := fun fd => fd = 0 ∨ fd = listenSock ∨ fd = mainEpfd
    interest := Function.update (fun _ => none) listenSock (some (EPOLLIN, p))
    listenSock := listenSock
    mainEpfd := mainEpfd
    serverEpfd := serverEpfd
    sent := [] }
  revs := none
  fault := none

/-- What `socket`, `epoll_create` and `malloc` return: two new descriptors, of which
the first may be 0, and an address. -/
structure Created (listenSock mainEpfd p : ℕ) : Prop where
  listen_lt : listenSock < 2 ^ 31
  ne_listen : mainEpfd ≠ listenSock
  ne_zero : mainEpfd ≠ 0
  addr_ne : p ≠ 0
  addr_lt : p < 2 ^ 64

/-- The server of `test/`, where `epfd` is one variable. -/
def system (code : Code) : System State Act where
  init s := ∃ listenSock epfd p, Created listenSock epfd p ∧ s = start listenSock epfd epfd p
  step := step code

/-- The server of two files: the `epfd` of `epoll_server.c` stays 0. -/
def twoFiles (code : Code) : System State Act where
  init s := ∃ listenSock epfd p, Created listenSock epfd p ∧ s = start listenSock epfd 0 p
  step := step code

end ShareBike.Http
