import ShareBike.Comm
import ShareBike.Lib.Bytes
import ShareBike.Lib.Transition

/-!
# The echo server on the event framework

`main` calls `comm_select(1000)` for ever. A round first runs the expired
timeouts, then `epoll_wait` reports a batch of events, and the handlers are
called for one event after the other. The results of `accept`, `read` and
`write` are part of the label of the step that calls the handlers.

A `ConnectStat` is known by the number of its allocation, which is never used
again; a connection has the number of its `ConnectStat`.

What the handlers print is left out: the texts for `debug`, those of a failed call, for
which `strerror` is not declared, and a `fprintf` that has its arguments swapped.
-/
namespace ShareBike.Echo
open ShareBike.Lib ShareBike.Comm

inductive Handler
  | acceptConnection
  | doWelcomeHandler
  | doEchoHandler
  | doEchoResponse
  | doEchoTimeout
  deriving DecidableEq, Repr

def BUFLEN : ℕ := 1024

structure ConnectStat where
  fd : ℕ
  sendBuf : List UInt8
  deriving DecidableEq

/-- What `write` does with its bytes: it takes all of them, or at most `n`, or
returns -1. -/
inductive WriteRes
  | all
  | part (n : ℕ)
  | error
  deriving DecidableEq

def WriteRes.count (len : ℕ) : WriteRes → ℤ
  | all => len
  | part n => min n len
  | error => -1

/-- The answers of the system calls in one step; `accept` fails with `none`. -/
structure Sys where
  accept : Option ℕ
  read : ReadRes
  write : WriteRes
  deriving DecidableEq

/-- What is done with the allocations: a handler is given one, or it is freed. -/
inductive Event
  | call (handler : Handler) (fd : ℕ) (data : Option ℕ)
  | free (id : ℕ)
  deriving DecidableEq

/-- The memory of the server, the connection that was accepted last on each
descriptor, the chunks read from each connection and the complete writes to it.
The log is newest first. -/
structure App where
  stats : ℕ → Option ConnectStat
  nextStat : ℕ
  conn : ℕ → Option ℕ
  reads : ℕ → List (List UInt8)
  writes : ℕ → List (List UInt8)
  log : List Event

abbrev EchoServer := Server Handler ℕ App

/-- `Welcome.\n` -/
def welcome : List UInt8 := [87, 101, 108, 99, 111, 109, 101, 46, 10]

/-- `quit` -/
def quit : List UInt8 := [113, 117, 105, 116]

/-- `->` -/
def arrow : List UInt8 := [45, 62]

def append (f : ℕ → List (List UInt8)) (k : Option ℕ) (bytes : List UInt8) :
    ℕ → List (List UInt8) :=
  match k with
  | some k => Function.update f k (f k ++ [bytes])
  | none => f

variable (sys : Sys) (fd : ℕ) (data : Option ℕ) (s : EchoServer)

/-- `write(fd, bytes, len)`. -/
def sysWrite (bytes : List UInt8) : ℤ × EchoServer :=
  let n := sys.write.count bytes.length
  (n, if n = bytes.length then
      { s with app := { s.app with writes := append s.app.writes (s.app.conn fd) bytes } }
    else s)

def closeAndFree : EchoServer where
  comm := s.comm.commClose fd true
  app := match data with
    | some id => { s.app with
        stats := Function.update s.app.stats id none, log := .free id :: s.app.log }
    | none => s.app

def setSendBuf (id : ℕ) (stat : ConnectStat) (buf : List UInt8) : EchoServer :=
  { s with app := { s.app with
    stats := Function.update s.app.stats id (some { stat with sendBuf := buf }) } }

def doWelcomeHandler : EchoServer :=
  let (n, s) := sysWrite sys fd s welcome
  if n ≠ welcome.length then s
  else
    let comm := s.comm.commUpdateReadHandler fd (some .doEchoHandler) data true
    { s with comm := comm.commSetTimeout fd 10 (some .doEchoTimeout) data }

/-- `read` gets the room of the buffer after `->`, less one byte for the NUL. -/
def doEchoHandler : EchoServer :=
  match data.bind fun id => (s.app.stats id).map fun stat => (id, stat) with
  | none => s
  | some (id, stat) =>
    let buf := overwrite stat.sendBuf 0 arrow
    match sys.read with
    | .data bytes =>
      let buf := overwrite buf arrow.length (bytes ++ [0])
      let s := setSendBuf s id stat buf
      if startsWithCase (buf.drop arrow.length) quit then closeAndFree fd data s
      else
        let comm := s.comm.commUpdateWriteHandler fd (some .doEchoResponse) data true
        { comm := comm.commSetTimeout fd 10 (some .doEchoTimeout) data
          app := { s.app with reads := append s.app.reads (s.app.conn fd) bytes } }
    | .closed => closeAndFree fd data (setSendBuf s id stat buf)
    | .error => setSendBuf s id stat buf

def doEchoResponse : EchoServer :=
  match data.bind fun id => s.app.stats id with
  | none => s
  | some stat =>
    let (n, s) := sysWrite sys fd s (cstr stat.sendBuf)
    if n > 0 then
      let comm := s.comm.commSetTimeout fd 10 (some .doEchoTimeout) data
      { s with comm := comm.commUpdateReadHandler fd (some .doEchoHandler) data true }
    else if n = 0 then closeAndFree fd data s
    else s

/-- The connection that is accepted gets a zeroed `ConnectStat`. -/
def acceptConnection : EchoServer :=
  match sys.accept with
  | none => s
  | some newFd =>
    let s : EchoServer :=
      { s with comm := { s.comm with isOpen := Function.update s.comm.isOpen newFd true } }
    if newFd > 0 then
      let id := s.app.nextStat
      let comm := s.comm.commUpdateWriteHandler newFd (some .doWelcomeHandler) (some id) true
      { comm := comm.commSetTimeout newFd 30 (some .doEchoTimeout) (some id)
        app := { s.app with
          stats := Function.update s.app.stats id (some ⟨newFd, List.replicate BUFLEN 0⟩)
          nextStat := id + 1
          conn := Function.update s.app.conn newFd (some id) } }
    else s

/-- A call of a handler through its pointer. -/
def invoke : Invoke Handler ℕ App := fun handler fd data s =>
  let s : EchoServer := { s with app := { s.app with log := .call handler fd data :: s.app.log } }
  match handler with
  | .acceptConnection => acceptConnection sys s
  | .doWelcomeHandler => doWelcomeHandler sys fd data s
  | .doEchoHandler => doEchoHandler sys fd data s
  | .doEchoResponse => doEchoResponse sys fd data s
  | .doEchoTimeout => closeAndFree fd data s

/-- The server, and the events of the current round that are still to be handled;
`none` is the place between two calls of `comm_select`. -/
structure State where
  server : EchoServer
  pending : Option (List (ℕ × Events))

/-- `accept` returns a descriptor that was not open and lies in the tables, and
`read` returns at most as many bytes as it was asked for. -/
def Sys.Possible (sys : Sys) (c : Framework Handler ℕ) : Prop :=
  (∀ fd ∈ sys.accept, c.isOpen fd = false ∧ fd < c.biggestFd) ∧
    match sys.read with
    | .data bytes => 1 ≤ bytes.length ∧ bytes.length ≤ BUFLEN - arrow.length - 1
    | _ => True

instance (sys : Sys) (c : Framework Handler ℕ) : Decidable (sys.Possible c) :=
  @instDecidableAnd _ _ inferInstance <|
    match sys.read with
    | .data _ => inferInstanceAs (Decidable (_ ∧ _))
    | .closed | .error => .isTrue trivial

inductive Act
  | wait (evs : List (ℕ × Events)) (elapsed : ℕ)
  | dispatch (sys : Sys)
  | done
  deriving DecidableEq

/-- No timeout handler makes one of the calls that these answers are for. -/
def Sys.silent : Sys := ⟨none, .error, .error⟩

def step (s : State) : Act → Option State
  | .wait evs elapsed =>
    match s.pending with
    | none =>
      let server := (s.server.beforeWait (invoke .silent) 1000).2
      if Batch server.comm.interest evs then
        some ⟨{ server with comm := { server.comm with clock := server.comm.clock + elapsed } },
          some evs⟩
      else none
    | some _ => none
  | .dispatch sys =>
    match s.pending with
    | some ((fd, ev) :: evs) =>
      if sys.Possible s.server.comm then some ⟨s.server.dispatch (invoke sys) fd ev, some evs⟩
      else none
    | _ => none
  | .done =>
    match s.pending with
    | some [] => some ⟨{ s.server with comm := s.server.comm.getCurrentTime }, none⟩
    | _ => none

/-- The server before its first round: the descriptor `listenSock` listens, and
descriptor 0 is open too. -/
def start (maxFd listenSock clock : ℕ) : State where
  server := {
    comm := Framework.commUpdateReadHandler
      (.commInit maxFd (fun fd => fd = 0 ∨ fd = listenSock) clock)
      listenSock (some .acceptConnection) (some 0) true
    app := {
      stats := Function.update (fun _ => none) 0 (some ⟨listenSock, List.replicate BUFLEN 0⟩)
      nextStat := 1
      conn := fun _ => none
      reads := fun _ => []
      writes := fun _ => []
      log := [] } }
  pending := none

def system : System State Act where
  init s := ∃ maxFd listenSock clock, s = start maxFd listenSock clock
  step := step

end ShareBike.Echo
