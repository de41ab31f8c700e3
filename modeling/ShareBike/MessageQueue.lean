import ShareBike.Lib.CStrings
import ShareBike.Lib.Printf
import ShareBike.Lib.Stdio
import ShareBike.Lib.Transition

/-!
# Programs around one message queue

Any number of processes run one of the four programs that use the message queue with the
key 1235: `msg_snd` sends the lines of its input up to one that starts with `exit`,
`msg_send1` sends one text, `msg_rcv` prints what it receives up to such a line and
`msg_rcv2` prints one message, and both then remove the queue, whoever else still uses it.
Every call may fail, and a process may be killed at any point.
-/
namespace ShareBike.MessageQueue
open ShareBike.Lib

inductive Program
  | msg_snd
  | msg_send1
  | msg_rcv
  | msg_rcv2
  deriving DecidableEq

/-- The call that a process makes next. -/
inductive Pc
  | msgget
  | fgets
  | msgsnd
  | msgrcv
  | printf
  | msgctl
  | exited (code : ℕ)
  | killed
  deriving DecidableEq

def Pc.running : Pc → Bool
  | exited _ => false
  | killed => false
  | _ => true

def MSG_SIZE : ℕ := 80

/-- A process; `msg` is the text of its `struct my_msg_st`. -/
structure Proc where
  program : Program
  pc : Pc
  msgid : Option ℕ
  msg : List UInt8
  stdin : List UInt8
  printed : List (Except BadAccess (List UInt8))

/-- A message that was sent or received: on which queue, by whom. -/
structure Entry (P : Type) where
  queue : ℕ
  proc : P
  msg : List UInt8

/-- The queue with the key, if there is one, and its messages; and what has happened to
all the queues that there were. -/
structure State (P : Type) where
  key : Option ℕ
  ids : ℕ
  content : List (List UInt8)
  procs : P → Proc
  sent : List (Entry P)
  taken : List (Entry P)

inductive Act (P : Type)
  | msgget (p : P) (ok : Bool)
  | fgets (p : P)
  | msgsnd (p : P) (ok : Bool)
  | msgrcv (p : P) (ok : Bool)
  | printf (p : P)
  | msgctl (p : P) (ok : Bool)
  | kill (p : P)
  deriving DecidableEq

/-- `strncmp(msg.msg, "exit", 4) == 0` -/
def isExit (msg : List UInt8) : Bool := (utf8 "exit").isPrefixOf msg

namespace Proc

variable (proc : Proc)

/-- After `msgget`; `msg_send1` copies its text. -/
def opened (q : ℕ) : Proc :=
  { proc with
    msgid := some q
    pc :=
      match proc.program with
      | .msg_snd => .fgets
      | .msg_send1 => .msgsnd
      | .msg_rcv => .msgrcv
      | .msg_rcv2 => .msgrcv
    msg :=
      match proc.program with
      | .msg_send1 => overwrite proc.msg 0 (utf8 "Hello world!" ++ [0])
      | _ => proc.msg }

/-- `fgets(msg.msg, sizeof(msg.msg), stdin)`, with any result. -/
def read : Proc :=
  let r := Lib.fgets MSG_SIZE (proc.msg, proc.stdin)
  { proc with pc := .msgsnd, msg := r.1, stdin := r.2 }

/-- After `msgsnd`: the test for the end, and what the process does when it makes no more
calls, are one with the call. -/
def posted : Proc :=
  { proc with
    pc :=
      match proc.program with
      | .msg_snd => if isExit proc.msg then .exited 0 else .fgets
      | _ => .exited 0 }

/-- After `msgrcv`. -/
def received (msg : List UInt8) : Proc := { proc with pc := .printf, msg := msg }

/-- `printf("received: %s\n", msg.msg)` -/
def print : Proc :=
  { proc with
    printed := proc.printed ++ [Checked.string proc.msg]
    pc :=
      match proc.program with
      | .msg_rcv => if isExit proc.msg then .msgctl else .msgrcv
      | _ => .msgctl }

def goto (pc : Pc) : Proc := { proc with pc := pc }

/-- Where a program goes on. -/
lemma opened_pc (q : ℕ) : proc.program = .msg_snd ∧ (proc.opened q).pc = .fgets ∨
    proc.program = .msg_send1 ∧ (proc.opened q).pc = .msgsnd ∨
    (proc.program = .msg_rcv ∨ proc.program = .msg_rcv2) ∧ (proc.opened q).pc = .msgrcv := by
  unfold opened
  cases proc.program <;> simp

lemma posted_pc : proc.posted.pc = .exited 0 ∧ (proc.program = .msg_snd → isExit proc.msg) ∨
    proc.posted.pc = .fgets ∧ proc.program = .msg_snd ∧ isExit proc.msg = false := by
  unfold posted
  cases proc.program <;> cases isExit proc.msg <;> simp

lemma print_pc : proc.print.pc = .msgctl ∧ (proc.program = .msg_rcv → isExit proc.msg) ∨
    proc.print.pc = .msgrcv ∧ proc.program = .msg_rcv ∧ isExit proc.msg = false := by
  unfold print
  cases proc.program <;> cases isExit proc.msg <;> simp

end Proc

variable {P : Type} [DecidableEq P]

namespace State

variable (s : State P)

def set (p : P) (proc : Proc) : State P := { s with procs := Function.update s.procs p proc }

/-- `msgget(1235, 0666 | IPC_CREAT)` -/
def msgget (p : P) : State P :=
  match s.key with
  | some q => s.set p ((s.procs p).opened q)
  | none =>
    State.set { s with key := some s.ids, ids := s.ids + 1, content := [] } p
      ((s.procs p).opened s.ids)

def msgsnd (p : P) (q : ℕ) : State P :=
  State.set { s with
    content := s.content ++ [(s.procs p).msg]
    sent := s.sent ++ [⟨q, p, (s.procs p).msg⟩] } p (s.procs p).posted

/-- `msgrcv` with the type 0: the first message, whatever its type is. -/
def msgrcv (p : P) (q : ℕ) (msg : List UInt8) (rest : List (List UInt8)) : State P :=
  State.set { s with content := rest, taken := s.taken ++ [⟨q, p, msg⟩] } p
    ((s.procs p).received msg)

/-- `msgctl(msgid, IPC_RMID, 0)` -/
def msgctl (p : P) : State P :=
  State.set { s with key := none, content := [] } p ((s.procs p).goto (.exited 0))

/-- A call that fails ends the program. -/
def fail (p : P) : State P := s.set p ((s.procs p).goto (.exited 1))

end State

/-- One step of a process. `msgsnd` blocks while the queue has no room for the message,
and `msgrcv` while it is empty; both fail when the queue is gone. -/
def step (msg_qbytes : ℕ) (s : State P) : Act P → Option (State P)
  | .msgget p ok =>
    if (s.procs p).pc = .msgget then if ok then some (s.msgget p) else some (s.fail p) else none
  | .fgets p =>
    if (s.procs p).pc = .fgets then some (s.set p (s.procs p).read) else none
  | .msgsnd p ok =>
    if (s.procs p).pc = .msgsnd then
      if ok then
        match s.key with
        | some q =>
          if (s.procs p).msgid = some q ∧ MSG_SIZE * (s.content.length + 1) ≤ msg_qbytes then
            some (s.msgsnd p q)
          else none
        | none => none
      else some (s.fail p)
    else none
  | .msgrcv p ok =>
    if (s.procs p).pc = .msgrcv then
      if ok then
        match s.key, s.content with
        | some q, msg :: rest =>
          if (s.procs p).msgid = some q then some (s.msgrcv p q msg rest) else none
        | _, _ => none
      else some (s.fail p)
    else none
  | .printf p =>
    if (s.procs p).pc = .printf then some (s.set p (s.procs p).print) else none
  | .msgctl p ok =>
    if (s.procs p).pc = .msgctl then
      if ok then
        if s.key ≠ none ∧ (s.procs p).msgid = s.key then some (s.msgctl p) else none
      else some (s.fail p)
    else none
  | .kill p =>
    if (s.procs p).pc.running then some (s.set p ((s.procs p).goto .killed)) else none

/-- What a process is started with: its program, its input, and what the stack holds where
the text of its message will be. -/
structure Arg where
  program : Program
  garbage : List UInt8
  stdin : List UInt8

def Arg.proc (arg : Arg) : Proc where
  program := arg.program
  pc := .msgget
  msgid := none
  msg := arg.garbage
  stdin := arg.stdin
  printed := []

/-- There is no queue, and no process has made a call. -/
def start (args : P → Arg) : State P where
  key := none
  ids := 0
  content := []
  procs p := (args p).proc
  sent := []
  taken := []

def system (msg_qbytes : ℕ) (args : P → Arg) : System (State P) (Act P) where
  init s := s = start args
  step := step msg_qbytes

/-- The text that `msg_snd` sends in the turn `k` of its loop. -/
def Arg.text (arg : Arg) (k : ℕ) : List UInt8 :=
  ((Lib.fgets MSG_SIZE)^[k + 1] (arg.garbage, arg.stdin)).1

section Log

/-- The messages of one queue. -/
def onQueue (log : List (Entry P)) (q : ℕ) : List (List UInt8) :=
  (log.filter (·.queue = q)).map Entry.msg

/-- The messages of one process. -/
def ofProc (log : List (Entry P)) (p : P) : List (List UInt8) :=
  (log.filter (·.proc = p)).map Entry.msg

variable (log : List (Entry P)) (e : Entry P)

omit [DecidableEq P] in
lemma onQueue_concat (q : ℕ) :
    onQueue (log ++ [e]) q = onQueue log q ++ if e.queue = q then [e.msg] else [] := by
  unfold onQueue
  split_ifs with h <;> simp [h]

lemma ofProc_concat (p : P) :
    ofProc (log ++ [e]) p = ofProc log p ++ if e.proc = p then [e.msg] else [] := by
  unfold ofProc
  split_ifs with h <;> simp [h]

end Log

end ShareBike.MessageQueue
