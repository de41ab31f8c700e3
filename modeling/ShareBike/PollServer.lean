import ShareBike.Lib.Transition
import Mathlib.Data.Finset.Basic
import Mathlib.Data.List.Basic
import Mathlib.Logic.Function.Basic

/-!
# The server that multiplexes its clients with `poll`

The table `fds` is indexed by descriptor. One iteration calls `poll` and then
scans the table up to `cur_max_fd`. A byte is read from a client in one round
and answered in a later one; in between it stays in the one variable `ch`, which
keeps its storage, and so its value, from one iteration to the next.

A label fixes what the kernel answers: the `revents` that `poll` stores, and for
a visited slot the new socket of `accept` and the outcome of `read`.
-/
namespace ShareBike.PollServer
open ShareBike.Lib

/-- `MAX_FD`, the length of the table `fds`. -/
def maxFd : ℕ := 8192

/-- The bits of `events` and `revents`; `other` stands for the conditions that
`poll` may report without being asked (`POLLERR`, `POLLHUP`, `POLLNVAL`). -/
structure Bits where
  pollin : Bool
  pollout : Bool
  other : Bool
  deriving DecidableEq

namespace Bits

def zero : Bits := ⟨false, false, false⟩
def POLLIN : Bits := ⟨true, false, false⟩
def POLLOUT : Bits := ⟨false, true, false⟩

end Bits

structure PollFd where
  fd : ℕ
  events : Bits
  revents : Bits
  deriving DecidableEq

/-- A slot after `memset(&fds[i], 0, sizeof(struct pollfd))`. -/
def PollFd.zero : PollFd := ⟨0, .zero, .zero⟩

inductive Loop
  | top
  | scan (i : ℕ)
  | exited
  deriving DecidableEq

inductive ReadResult
  | byte (b : UInt8)
  | eof
  | error
  deriving DecidableEq

/-- A byte written to a client, with the byte read last from the same client. -/
structure Reply where
  written : UInt8
  lastRead : Option UInt8
  deriving DecidableEq

/-- `clients`, `conn`, `conns`, `reads` and `replies` record what the kernel and
the clients see: the open client sockets, the number of the connection on each
of them, how many connections there were, and the bytes that went each way. -/
structure Server where
  serverSockfd : ℕ
  fds : ℕ → PollFd
  curMaxFd : ℕ
  ch : UInt8
  loop : Loop
  clients : Finset ℕ
  conn : ℕ → ℕ
  conns : ℕ
  reads : ℕ → List UInt8
  replies : ℕ → List Reply

inductive Act
  | poll (revents : ℕ → Bits)
  | pollError
  | visit (newFd : ℕ) (read : ReadResult)

/-- Before the loop: the listening socket in its slot, every other slot zero. -/
def start (serverSockfd : ℕ) : Server where
  serverSockfd := serverSockfd
  fds := Function.update (fun _ => .zero) serverSockfd ⟨serverSockfd, .POLLIN, .zero⟩
  curMaxFd := serverSockfd + 1
  ch := 0
  loop := .top
  clients := ∅
  conn := fun _ => 0
  conns := 0
  reads := fun _ => []
  replies := fun _ => []

/-- `poll` overwrites `revents` in the first `cur_max_fd` slots. -/
def pollFds (s : Server) (revents : ℕ → Bits) : Server :=
  { s with
    fds := fun i =>
      if i < s.curMaxFd then { s.fds i with revents := revents i } else s.fds i }

/-- The branch for the listening socket. -/
def acceptClient (s : Server) (newFd : ℕ) : Server :=
  { s with
    fds := Function.update s.fds newFd ⟨newFd, .POLLIN, .zero⟩
    curMaxFd := if s.curMaxFd ≤ newFd then newFd + 1 else s.curMaxFd
    clients := insert newFd s.clients
    conn := Function.update s.conn newFd s.conns
    conns := s.conns + 1 }

/-- `close(fd)` and `memset` of the slot. -/
def closeClient (s : Server) (i : ℕ) : Server :=
  { s with
    fds := Function.update s.fds i .zero
    clients := s.clients.erase (s.fds i).fd }

/-- `ch++` and the request for a write event, after a byte was read into `ch`. -/
def readClient (s : Server) (i : ℕ) (b : UInt8) : Server :=
  { s with
    ch := b + 1
    fds := Function.update s.fds i { s.fds i with events := .POLLOUT }
    reads := Function.update s.reads (s.conn (s.fds i).fd)
      (s.reads (s.conn (s.fds i).fd) ++ [b]) }

/-- The same branch after `read` returned -1: `ch` is incremented unread. -/
def readError (s : Server) (i : ℕ) : Server :=
  { s with
    ch := s.ch + 1
    fds := Function.update s.fds i { s.fds i with events := .POLLOUT } }

/-- `write(fd, &ch, 1)` and the request for a read event. -/
def writeClient (s : Server) (i : ℕ) : Server :=
  { s with
    fds := Function.update s.fds i { s.fds i with events := .POLLIN }
    replies := Function.update s.replies (s.conn (s.fds i).fd)
      (s.replies (s.conn (s.fds i).fd) ++
        [⟨s.ch, (s.reads (s.conn (s.fds i).fd)).getLast?⟩]) }

def visitSlot (s : Server) (i newFd : ℕ) (read : ReadResult) : Server :=
  if (s.fds i).revents = .zero then s
  else if (s.fds i).fd = s.serverSockfd then acceptClient s newFd
  else if (s.fds i).revents.pollin then
    match read with
    | .eof => closeClient s i
    | .byte b => readClient s i b
    | .error => readError s i
  else if (s.fds i).revents.pollout then writeClient s i
  else s

/-- `poll` reports no readiness that was not requested. -/
abbrev Reported (s : Server) (revents : ℕ → Bits) : Prop :=
  ∀ i < s.curMaxFd, ((revents i).pollin → (s.fds i).events.pollin) ∧
    ((revents i).pollout → (s.fds i).events.pollout)

/-- `accept` returns a descriptor that is not open and lies in the table. -/
abbrev Fresh (s : Server) (newFd : ℕ) : Prop :=
  newFd < maxFd ∧ newFd ≠ s.serverSockfd ∧ newFd ∉ s.clients

/-- The visited slot leads to a call of `accept`. -/
abbrev Accepts (s : Server) (i : ℕ) : Prop :=
  (s.fds i).revents ≠ .zero ∧ (s.fds i).fd = s.serverSockfd

def step (s : Server) (a : Act) : Option Server :=
  match s.loop, a with
  | .top, .pollError => some { s with loop := .exited }
  | .top, .poll revents =>
    if Reported s revents then some { pollFds s revents with loop := .scan 0 } else none
  | .scan i, .visit newFd read =>
    if i < s.curMaxFd then
      if Accepts s i → Fresh s newFd then
        some { visitSlot s i newFd read with loop := .scan (i + 1) }
      else none
    else some { s with loop := .top }
  | _, _ => none

def system : System Server Act where
  init s := ∃ fd < maxFd, s = start fd
  step := step

/-- What the clients may rely on: every byte written to a client is the successor
of the byte read last from that client, and the replies to one connection are
the successors of the bytes read from it, whatever the others sent. -/
def Faithful (s : Server) : Prop :=
  ∀ c, (∀ r ∈ s.replies c, r.lastRead.map (· + 1) = some r.written) ∧
    (s.replies c).map Reply.written <+: (s.reads c).map (· + 1)

/-- The byte in `ch` is the reply to the client of slot `i` if that client waits
for one; each reply so far answers one byte. -/
structure Slot (s : Server) (i : ℕ) : Prop where
  fd_eq : (s.fds i).fd = i
  lt_curMaxFd : i < s.curMaxFd
  conn_lt : s.conn i < s.conns
  events : (s.fds i).events = .POLLIN ∧
      (s.replies (s.conn i)).length = (s.reads (s.conn i)).length ∨
    (s.fds i).events = .POLLOUT ∧
      (s.replies (s.conn i)).length + 1 = (s.reads (s.conn i)).length ∧
      (s.reads (s.conn i)).getLast?.map (· + 1) = some s.ch

/-- The invariant of the table and of the histories, at every control point. -/
structure Table (s : Server) : Prop where
  server_fd : (s.fds s.serverSockfd).fd = s.serverSockfd
  server_not_client : s.serverSockfd ∉ s.clients
  server_lt : s.serverSockfd < s.curMaxFd
  slot : ∀ i ∈ s.clients, Slot s i
  idle : ∀ i, i ∉ s.clients → i ≠ s.serverSockfd → (s.fds i).events = .zero
  beyond : ∀ i, s.curMaxFd ≤ i → s.fds i = .zero
  conn_inj : ∀ i ∈ s.clients, ∀ j ∈ s.clients, s.conn i = s.conn j → i = j
  unused : ∀ c, s.conns ≤ c → s.reads c = [] ∧ s.replies c = []
  faithful : Faithful s

/-- No readiness is left over in the slots that the scan has not reached. -/
def Pending (s : Server) (k : ℕ) : Prop :=
  ∀ i, k ≤ i → ((s.fds i).revents.pollin → (s.fds i).events.pollin) ∧
    ((s.fds i).revents.pollout → (s.fds i).events.pollout)

/-- The part of the invariant that says which slots are in use, and for what. -/
structure Slots (s : Server) : Prop where
  server_fd : (s.fds s.serverSockfd).fd = s.serverSockfd
  server_not_client : s.serverSockfd ∉ s.clients
  server_lt : s.serverSockfd < s.curMaxFd
  fd_eq : ∀ i ∈ s.clients, (s.fds i).fd = i
  lt_curMaxFd : ∀ i ∈ s.clients, i < s.curMaxFd
  events : ∀ i ∈ s.clients, (s.fds i).events = .POLLIN ∨ (s.fds i).events = .POLLOUT
  idle : ∀ i, i ∉ s.clients → i ≠ s.serverSockfd → (s.fds i).events = .zero
  beyond : ∀ i, s.curMaxFd ≤ i → s.fds i = .zero

lemma Table.slots {s : Server} (h : Table s) : Slots s where
  server_fd := h.server_fd
  server_not_client := h.server_not_client
  server_lt := h.server_lt
  fd_eq i hi := (h.slot i hi).fd_eq
  lt_curMaxFd i hi := (h.slot i hi).lt_curMaxFd
  events i hi := (h.slot i hi).events.imp And.left And.left
  idle := h.idle
  beyond := h.beyond

/-- A slot that reports readiness and is not the listening socket's is a client's. -/
lemma Slots.client_of_ready {s : Server} (h : Slots s) {i : ℕ} (hp : Pending s i)
    (hne : (s.fds i).fd ≠ s.serverSockfd)
    (hr : (s.fds i).revents.pollin = true ∨ (s.fds i).revents.pollout = true) :
    i ∈ s.clients := by
  by_contra hi
  have hserver : i ≠ s.serverSockfd := by
    rintro rfl
    exact hne h.server_fd
  have hidle := h.idle i hi hserver
  rcases hr with hr | hr
  · have he := (hp i le_rfl).1 hr
    simp [hidle, Bits.zero] at he
  · have he := (hp i le_rfl).2 hr
    simp [hidle, Bits.zero] at he

/-- The bound is never lowered, and it is raised above a new descriptor. -/
lemma curMaxFd_acceptClient (s : Server) (newFd : ℕ) :
    s.curMaxFd ≤ (acceptClient s newFd).curMaxFd ∧
      newFd < (acceptClient s newFd).curMaxFd := by
  simp only [acceptClient]
  split_ifs <;> omega

lemma Slots.accept {s : Server} (h : Slots s) {newFd : ℕ} (hf : Fresh s newFd) :
    Slots (acceptClient s newFd) := by
  obtain ⟨-, hserver, hnew⟩ := hf
  have hcur := curMaxFd_acceptClient s newFd
  have hne : ∀ i ∈ s.clients, i ≠ newFd := fun i hi he => hnew (he ▸ hi)
  refine ⟨?_, ?_, h.server_lt.trans_le hcur.1, ?_, ?_, ?_, ?_, ?_⟩
  · simpa [acceptClient, Function.update_of_ne (Ne.symm hserver)] using h.server_fd
  · simpa [acceptClient, Ne.symm hserver] using h.server_not_client
  · intro i hi
    rcases Finset.mem_insert.mp hi with rfl | hi
    · simp [acceptClient]
    · simpa [acceptClient, Function.update_of_ne (hne i hi)] using h.fd_eq i hi
  · intro i hi
    rcases Finset.mem_insert.mp hi with rfl | hi
    · exact hcur.2
    · exact (h.lt_curMaxFd i hi).trans_le hcur.1
  · intro i hi
    rcases Finset.mem_insert.mp hi with rfl | hi
    · simp [acceptClient]
    · simpa [acceptClient, Function.update_of_ne (hne i hi)] using h.events i hi
  · intro i hi his
    have hnot : i ≠ newFd := fun he => hi (he ▸ Finset.mem_insert_self _ _)
    have hold : i ∉ s.clients := fun hm => hi (Finset.mem_insert_of_mem hm)
    simpa [acceptClient, Function.update_of_ne hnot] using h.idle i hold his
  · intro i hi
    have hnot : i ≠ newFd := by omega
    simpa [acceptClient, Function.update_of_ne hnot] using h.beyond i (hcur.1.trans hi)

/-- The clients that are left after one of them was closed. -/
lemma Slots.mem_closeClient {s : Server} (h : Slots s) {i j : ℕ} (hi : i ∈ s.clients) :
    j ∈ (closeClient s i).clients ↔ j ≠ i ∧ j ∈ s.clients := by
  simp only [closeClient, h.fd_eq i hi, Finset.mem_erase]

lemma Slots.close {s : Server} (h : Slots s) {i : ℕ} (hi : i ∈ s.clients) :
    Slots (closeClient s i) := by
  have hserver : s.serverSockfd ≠ i := fun he => h.server_not_client (he ▸ hi)
  have hleft : ∀ j ∈ (closeClient s i).clients, j ≠ i ∧ j ∈ s.clients := fun j hj =>
    (h.mem_closeClient hi).mp hj
  refine ⟨?_, fun hm => h.server_not_client (hleft _ hm).2, h.server_lt, ?_, ?_, ?_, ?_, ?_⟩
  · simpa [closeClient, Function.update_of_ne hserver] using h.server_fd
  · intro j hj
    obtain ⟨hne, hj⟩ := hleft j hj
    simpa [closeClient, Function.update_of_ne hne] using h.fd_eq j hj
  · exact fun j hj => h.lt_curMaxFd j (hleft j hj).2
  · intro j hj
    obtain ⟨hne, hj⟩ := hleft j hj
    simpa [closeClient, Function.update_of_ne hne] using h.events j hj
  · intro j hj hjs
    by_cases hne : j = i
    · simp [closeClient, hne, PollFd.zero]
    · have hold : j ∉ s.clients := fun hm => hj ((h.mem_closeClient hi).mpr ⟨hne, hm⟩)
      simpa [closeClient, Function.update_of_ne hne] using h.idle j hold hjs
  · intro j hj
    by_cases hne : j = i
    · simp [closeClient, hne]
    · simpa [closeClient, Function.update_of_ne hne] using h.beyond j hj

/-- A client is asked for the other event; its slot stays as it is otherwise. -/
lemma Slots.rearm {s s' : Server} (h : Slots s) {i : ℕ} (hi : i ∈ s.clients) {e : Bits}
    (he : e = .POLLIN ∨ e = .POLLOUT)
    (hfds : s'.fds = Function.update s.fds i { s.fds i with events := e })
    (hserver : s'.serverSockfd = s.serverSockfd) (hcur : s'.curMaxFd = s.curMaxFd)
    (hclients : s'.clients = s.clients) : Slots s' := by
  have hself : s'.fds i = { s.fds i with events := e } := by rw [hfds, Function.update_self]
  have hother : ∀ j, j ≠ i → s'.fds j = s.fds j := fun j hj => by
    rw [hfds, Function.update_of_ne hj]
  have hnot : s.serverSockfd ≠ i := fun he => h.server_not_client (he ▸ hi)
  refine ⟨?_, ?_, ?_, ?_, ?_, ?_, ?_, ?_⟩
  · rw [hserver, hother _ hnot]
    exact h.server_fd
  · rw [hserver, hclients]
    exact h.server_not_client
  · rw [hserver, hcur]
    exact h.server_lt
  · intro j hj
    rw [hclients] at hj
    by_cases hji : j = i
    · subst hji
      rw [hself]
      exact h.fd_eq j hj
    · rw [hother j hji]
      exact h.fd_eq j hj
  · intro j hj
    rw [hclients] at hj
    rw [hcur]
    exact h.lt_curMaxFd j hj
  · intro j hj
    rw [hclients] at hj
    by_cases hji : j = i
    · subst hji
      rw [hself]
      exact he
    · rw [hother j hji]
      exact h.events j hj
  · intro j hj hjs
    rw [hclients] at hj
    rw [hserver] at hjs
    rw [hother j fun hji => hj (hji ▸ hi)]
    exact h.idle j hj hjs
  · intro j hj
    rw [hcur] at hj
    have hji : j ≠ i := ((h.lt_curMaxFd i hi).trans_le hj).ne'
    rw [hother j hji]
    exact h.beyond j hj

/-- `poll` writes only `revents`. -/
lemma Slots.poll {s : Server} (h : Slots s) (revents : ℕ → Bits) :
    Slots (pollFds s revents) := by
  have hfd : ∀ i, ((pollFds s revents).fds i).fd = (s.fds i).fd := by
    intro i
    simp only [pollFds]
    split_ifs <;> rfl
  have hev : ∀ i, ((pollFds s revents).fds i).events = (s.fds i).events := by
    intro i
    simp only [pollFds]
    split_ifs <;> rfl
  refine ⟨(hfd _).trans h.server_fd, h.server_not_client, h.server_lt,
    fun i hi => (hfd i).trans (h.fd_eq i hi), h.lt_curMaxFd, ?_, ?_, ?_⟩
  · intro i hi
    rw [hev]
    exact h.events i hi
  · exact fun i hi his => (hev i).trans (h.idle i hi his)
  · intro i hi
    have hnot : ¬ i < s.curMaxFd := not_lt.mpr hi
    simpa only [pollFds, if_neg hnot] using h.beyond i hi

lemma Slots.of_loop {s : Server} (h : Slots s) (l : Loop) : Slots { s with loop := l } :=
  ⟨h.server_fd, h.server_not_client, h.server_lt, h.fd_eq, h.lt_curMaxFd, h.events, h.idle,
    h.beyond⟩

lemma Table.faithful_of_append {s : Server} (h : Faithful s) {c : ℕ} {b : UInt8} :
    ∀ d, (s.replies d).map Reply.written <+:
      (Function.update s.reads c (s.reads c ++ [b]) d).map (· + 1) := by
  intro d
  by_cases hd : d = c
  · subst hd
    simp only [Function.update_self, List.map_append]
    exact (h d).2.trans (List.prefix_append _ _)
  · simpa [Function.update_of_ne hd] using (h d).2

lemma Table.accept {s : Server} (h : Table s) {newFd : ℕ} (hf : Fresh s newFd) :
    Table (acceptClient s newFd) := by
  have hslots := h.slots.accept hf
  obtain ⟨-, hserver, hnew⟩ := hf
  refine ⟨hslots.server_fd, hslots.server_not_client, hslots.server_lt, ?_, hslots.idle,
    hslots.beyond, ?_, ?_, h.faithful⟩
  · intro i hi
    have hfd := hslots.fd_eq i hi
    have hlt := hslots.lt_curMaxFd i hi
    rcases Finset.mem_insert.mp hi with rfl | hi
    · -- a new connection has no history yet
      obtain ⟨hr, hw⟩ := h.unused s.conns le_rfl
      exact ⟨hfd, hlt, by simp [acceptClient], .inl (by simp [acceptClient, hr, hw])⟩
    · have hne : i ≠ newFd := fun he => hnew (he ▸ hi)
      have hs := h.slot i hi
      refine ⟨hfd, hlt, ?_, ?_⟩
      · have hconn := hs.conn_lt
        simp only [acceptClient, Function.update_of_ne hne]
        omega
      · simpa [acceptClient, Function.update_of_ne hne] using hs.events
  · intro i hi j hj he
    simp only [acceptClient, Function.update_apply] at he
    have hlt : ∀ k ∈ s.clients, s.conn k ≠ s.conns := fun k hk =>
      Nat.ne_of_lt (h.slot k hk).conn_lt
    rcases Finset.mem_insert.mp hi with hi' | hi' <;>
      rcases Finset.mem_insert.mp hj with hj' | hj'
    · rw [hi', hj']
    · have hne : j ≠ newFd := fun h' => hnew (h' ▸ hj')
      simp only [hi', if_true, if_neg hne] at he
      exact absurd he.symm (hlt j hj')
    · have hne : i ≠ newFd := fun h' => hnew (h' ▸ hi')
      simp only [hj', if_true, if_neg hne] at he
      exact absurd he (hlt i hi')
    · have hni : i ≠ newFd := fun h' => hnew (h' ▸ hi')
      have hnj : j ≠ newFd := fun h' => hnew (h' ▸ hj')
      simp only [if_neg hni, if_neg hnj] at he
      exact h.conn_inj i hi' j hj' he
  · intro c hc
    exact h.unused c (by simp only [acceptClient] at hc; omega)

lemma Table.close {s : Server} (h : Table s) {i : ℕ} (hi : i ∈ s.clients) :
    Table (closeClient s i) := by
  have hslots := h.slots.close hi
  have hleft : ∀ j ∈ (closeClient s i).clients, j ≠ i ∧ j ∈ s.clients := fun j hj =>
    (h.slots.mem_closeClient hi).mp hj
  refine ⟨hslots.server_fd, hslots.server_not_client, hslots.server_lt, ?_, hslots.idle,
    hslots.beyond, ?_, h.unused, h.faithful⟩
  · intro j hj
    obtain ⟨hne, hold⟩ := hleft j hj
    have hs := h.slot j hold
    exact ⟨hslots.fd_eq j hj, hslots.lt_curMaxFd j hj, hs.conn_lt,
      by simpa [closeClient, Function.update_of_ne hne] using hs.events⟩
  · intro j hj k hk he
    exact h.conn_inj j (hleft j hj).2 k (hleft k hk).2 he

/-- Every other client that waits for a reply sent the byte `b` too, so the new
content of `ch` answers it as the old one did. -/
abbrev SameAsWaiting (s : Server) (i : ℕ) (b : UInt8) : Prop :=
  ∀ j ∈ s.clients, j ≠ i → (s.fds j).events.pollout →
    (s.reads (s.conn j)).getLast? = some b

lemma Table.read {s : Server} (h : Table s) {i : ℕ} (hi : i ∈ s.clients)
    (hin : (s.fds i).events.pollin) {b : UInt8} (hb : SameAsWaiting s i b) :
    Table (readClient s i b) := by
  have hslot := h.slot i hi
  have hslots : Slots (readClient s i b) := h.slots.rearm hi (.inr rfl) rfl rfl rfl rfl
  have hother : ∀ j ∈ s.clients, j ≠ i → s.conn j ≠ s.conn i := fun j hj hne he =>
    hne (h.conn_inj j hj i hi he)
  refine ⟨hslots.server_fd, hslots.server_not_client, hslots.server_lt, ?_, hslots.idle,
    hslots.beyond, h.conn_inj, ?_, ?_⟩
  · intro j hj
    refine ⟨hslots.fd_eq j hj, hslots.lt_curMaxFd j hj, (h.slot j hj).conn_lt, ?_⟩
    by_cases hne : j = i
    · subst hne
      rcases hslot.events with ⟨_, hlen⟩ | ⟨hout, _⟩
      · exact .inr (by simp [readClient, hslot.fd_eq, hlen])
      · simp [hout, Bits.POLLOUT] at hin
    · simp only [readClient, Function.update_of_ne hne, hslot.fd_eq,
        Function.update_of_ne (hother j hj hne)]
      rcases (h.slot j hj).events with hin' | ⟨hout, hlen, _⟩
      · exact .inl hin'
      · have hlast := hb j hj hne (by simp [hout, Bits.POLLOUT])
        exact .inr ⟨hout, hlen, by simp [hlast]⟩
  · intro c hc
    have hne : c ≠ s.conn i := by have := hslot.conn_lt; simp only [readClient] at hc; omega
    simpa [readClient, hslot.fd_eq, Function.update_of_ne hne] using h.unused c hc
  · intro c
    exact ⟨(h.faithful c).1, Table.faithful_of_append h.faithful c⟩

lemma Table.write {s : Server} (h : Table s) {i : ℕ} (hi : i ∈ s.clients)
    (hout : (s.fds i).events.pollout) : Table (writeClient s i) := by
  have hslot := h.slot i hi
  have hslots : Slots (writeClient s i) := h.slots.rearm hi (.inl rfl) rfl rfl rfl rfl
  have hother : ∀ j ∈ s.clients, j ≠ i → s.conn j ≠ s.conn i := fun j hj hne he =>
    hne (h.conn_inj j hj i hi he)
  obtain ⟨hlen, hlast⟩ : (s.replies (s.conn i)).length + 1 = (s.reads (s.conn i)).length ∧
      (s.reads (s.conn i)).getLast?.map (· + 1) = some s.ch := by
    rcases hslot.events with ⟨hin, _⟩ | ⟨_, hw⟩
    · simp [hin, Bits.POLLIN] at hout
    · exact hw
  refine ⟨hslots.server_fd, hslots.server_not_client, hslots.server_lt, ?_, hslots.idle,
    hslots.beyond, h.conn_inj, ?_, ?_⟩
  · intro j hj
    refine ⟨hslots.fd_eq j hj, hslots.lt_curMaxFd j hj, (h.slot j hj).conn_lt, ?_⟩
    by_cases hne : j = i
    · subst hne
      exact .inl (by simp [writeClient, hslot.fd_eq, hlen])
    · simpa only [writeClient, Function.update_of_ne hne, hslot.fd_eq,
        Function.update_of_ne (hother j hj hne)] using (h.slot j hj).events
  · intro c hc
    have hne : c ≠ s.conn i := by have := hslot.conn_lt; simp only [writeClient] at hc; omega
    simpa [writeClient, hslot.fd_eq, Function.update_of_ne hne] using h.unused c hc
  · intro c
    by_cases hne : c = s.conn i
    · subst hne
      obtain ⟨hall, hpre⟩ := h.faithful (s.conn i)
      constructor
      · intro r hr
        simp only [writeClient, hslot.fd_eq, Function.update_self, List.mem_append,
          List.mem_singleton] at hr
        rcases hr with hr | rfl
        · exact hall r hr
        · exact hlast
      · simp only [writeClient, hslot.fd_eq, Function.update_self, List.map_append,
          List.map_cons, List.map_nil]
        -- the replies so far answer all bytes but the last one
        obtain ⟨rest, hrest⟩ := hpre
        have hlen' : rest.length = 1 := by
          have := congrArg List.length hrest
          simp only [List.length_append, List.length_map] at this
          omega
        obtain ⟨x, rfl⟩ := List.length_eq_one_iff.mp hlen'
        have hx : x = s.ch := by
          have := congrArg List.getLast? hrest
          rw [List.getLast?_concat, List.getLast?_map, hlast] at this
          exact Option.some.inj this
        rw [← hrest, hx]
    · simpa [writeClient, hslot.fd_eq, Function.update_of_ne hne] using h.faithful c

/-- The invariant of the loop: the table, and during a scan the readiness of
the slots that are still to be visited. -/
def Inv (s : Server) : Prop := Table s ∧ ∀ k, s.loop = .scan k → Pending s k

/-- `poll` changes no field that the table invariant speaks about. -/
lemma Table.poll {s : Server} (h : Table s) (revents : ℕ → Bits) :
    Table (pollFds s revents) := by
  have hslots := h.slots.poll revents
  have hev : ∀ i, ((pollFds s revents).fds i).events = (s.fds i).events := by
    intro i
    simp only [pollFds]
    split_ifs <;> rfl
  refine ⟨hslots.server_fd, hslots.server_not_client, hslots.server_lt, ?_, hslots.idle,
    hslots.beyond, h.conn_inj, h.unused, h.faithful⟩
  intro i hi
  refine ⟨hslots.fd_eq i hi, hslots.lt_curMaxFd i hi, (h.slot i hi).conn_lt, ?_⟩
  rw [hev]
  exact (h.slot i hi).events

lemma Slots.pending_poll {s : Server} (h : Slots s) {revents : ℕ → Bits}
    (hr : Reported s revents) : Pending (pollFds s revents) 0 := by
  intro i _
  simp only [pollFds]
  split_ifs with hi
  · exact hr i hi
  · simp [h.beyond i (not_lt.mp hi), PollFd.zero, Bits.zero]

/-- A visit leaves the slots after the scan position as they were, but for the
slot of a newly accepted client, which reports nothing. -/
lemma visitSlot_pending {s : Server} {i : ℕ} (hp : Pending s i) (newFd : ℕ)
    (read : ReadResult) : Pending (visitSlot s i newFd read) (i + 1) := by
  intro j hj
  have hji : j ≠ i := by omega
  have hold := hp j (by omega)
  have hset : ∀ p : PollFd,
      ((Function.update s.fds i p j).revents.pollin → (Function.update s.fds i p j).events.pollin) ∧
      ((Function.update s.fds i p j).revents.pollout →
        (Function.update s.fds i p j).events.pollout) := by
    intro p
    simpa only [Function.update_of_ne hji] using hold
  unfold visitSlot
  split_ifs
  · exact hold
  · by_cases hn : j = newFd
    · simp [acceptClient, hn, Bits.zero]
    · simpa [acceptClient, Function.update_of_ne hn] using hold
  · cases read with
    | byte b => exact hset _
    | eof => exact hset _
    | error => exact hset _
  · exact hset _
  · exact hold

/-- The outcome of `read` that a label carries. -/
def Act.read? : Act → Option ReadResult
  | .visit _ read => some read
  | _ => none

/-- Every `read` returns a byte, or end of file. -/
abbrev ReadsSucceed (a : Act) : Prop := a.read? ≠ some .error

/-- The slot and the byte, if the step reads a byte from a client. -/
def byteRead (s : Server) (a : Act) : Option (ℕ × UInt8) :=
  match s.loop, a with
  | .scan i, .visit _ (.byte b) =>
    if (s.fds i).revents.pollin ∧ (s.fds i).fd ≠ s.serverSockfd then some (i, b) else none
  | _, _ => none

/-- A byte is read from a client only while every other client that waits for
its reply has sent the same byte. -/
abbrev NoOverwrite (s : Server) (a : Act) : Prop :=
  ∀ p ∈ byteRead s a, SameAsWaiting s p.1 p.2

lemma Inv.visit {s : Server} {i newFd : ℕ} {read : ReadResult} (h : Table s)
    (hloop : s.loop = .scan i) (hp : Pending s i) (hf : Accepts s i → Fresh s newFd)
    (hread : ReadsSucceed (.visit newFd read)) (hno : NoOverwrite s (.visit newFd read)) :
    Table (visitSlot s i newFd read) := by
  unfold visitSlot
  split_ifs with hzero hserver hin hout
  · exact h
  · exact h.accept (hf ⟨hzero, hserver⟩)
  · have hi := h.slots.client_of_ready hp hserver (.inl hin)
    cases read with
    | byte b =>
      have hb : byteRead s (.visit newFd (.byte b)) = some (i, b) := by
        simp only [byteRead, hloop, hin, hserver, ne_eq, not_false_eq_true, and_self, if_true]
      exact h.read hi ((hp i le_rfl).1 hin) (hno (i, b) hb)
    | eof => exact h.close hi
    | error => exact absurd rfl hread
  · exact h.write (h.slots.client_of_ready hp hserver (.inr hout)) ((hp i le_rfl).2 hout)
  · exact h

lemma Table.of_loop {s : Server} (h : Table s) (l : Loop) : Table { s with loop := l } :=
  ⟨h.server_fd, h.server_not_client, h.server_lt, fun i hi =>
    ⟨(h.slot i hi).fd_eq, (h.slot i hi).lt_curMaxFd, (h.slot i hi).conn_lt,
      (h.slot i hi).events⟩,
    h.idle, h.beyond, h.conn_inj, h.unused, h.faithful⟩

lemma step_inv {s s' : Server} {a : Act} (h : Inv s)
    (hok : ReadsSucceed a ∧ NoOverwrite s a) (hs : step s a = some s') : Inv s' := by
  unfold step at hs
  split at hs
  · cases hs
    exact ⟨h.1.of_loop _, by simp⟩
  · split_ifs at hs with hr
    cases hs
    refine ⟨(h.1.poll _).of_loop _, ?_⟩
    rintro k hk
    cases hk
    exact h.1.slots.pending_poll hr
  · rename_i i newFd read hloop
    split_ifs at hs with _ hf
    · cases hs
      refine ⟨(Inv.visit h.1 hloop (h.2 i hloop) hf hok.1 hok.2).of_loop _, ?_⟩
      rintro k hk
      cases hk
      exact visitSlot_pending (h.2 i hloop) newFd read
    · cases hs
      exact ⟨h.1.of_loop _, by simp⟩
  · cases hs

lemma start_inv (fd : ℕ) : Inv (start fd) := by
  refine ⟨⟨?_, ?_, ?_, ?_, ?_, ?_, ?_, ?_, ?_⟩, ?_⟩
  · simp [start]
  · simp [start]
  · simp [start]
  · simp [start]
  · intro i _ hi
    have hne : i ≠ fd := hi
    simp [start, Function.update_of_ne hne, PollFd.zero]
  · intro i hi
    have hne : i ≠ fd := by simp only [start] at hi; omega
    simp [start, Function.update_of_ne hne]
  · simp [start]
  · simp [start]
  · intro c
    simp [start]
  · simp [start]

/-- If a byte is read from a client only while every client that waits for its
reply has sent the same byte, then every reply is the successor of the byte last
read from the client it goes to, and no client's traffic changes the replies of
another. -/
theorem replies_faithful {s : Server}
    (h : system.Reach (fun s a => ReadsSucceed a ∧ NoOverwrite s a) s) :
    ∀ c, (∀ r ∈ s.replies c, r.lastRead.map (· + 1) = some r.written) ∧
      (s.replies c).map Reply.written <+: (s.reads c).map (· + 1) := by
  have hinv : Inv s := by
    refine h.invariant ?_ fun _ _ _ => step_inv
    rintro _ ⟨fd, _, rfl⟩
    exact start_inv fd
  exact hinv.1.faithful

/-- The slots listed in `l` report the given bits, the others report nothing. -/
def reports (l : List (ℕ × Bits)) (i : ℕ) : Bits := (l.lookup i).getD .zero

/-- A client connects on descriptor 4, sends `A` and gets its reply. -/
def singleRun : List Act :=
  .poll (reports [(3, .POLLIN)]) :: List.replicate 6 (.visit 4 .eof) ++
  .poll (reports [(4, .POLLIN)]) :: List.replicate 6 (.visit 5 (.byte 65)) ++
  .poll (reports [(4, .POLLOUT)]) :: List.replicate 6 (.visit 5 .eof)

/-- Two clients connect; one round reads `A` from the first and `B` from the
second, and the next round answers both. -/
def crossRun : List Act :=
  .poll (reports [(3, .POLLIN)]) :: List.replicate 6 (.visit 4 .eof) ++
  .poll (reports [(3, .POLLIN)]) :: List.replicate 7 (.visit 5 .eof) ++
  .poll (reports [(4, .POLLIN), (5, .POLLIN)]) ::
    (List.replicate 5 (.visit 6 (.byte 65)) ++ List.replicate 2 (.visit 6 (.byte 66))) ++
  .poll (reports [(4, .POLLOUT), (5, .POLLOUT)]) :: List.replicate 7 (.visit 6 .eof)

/-- A lone client is answered with the successor of its own byte. -/
theorem replies_faithful_single :
    ∃ s, system.exec (start 3) singleRun = some s ∧ s.replies 0 = [⟨66, some 65⟩] ∧
      ∀ c, (∀ r ∈ s.replies c, r.lastRead.map (· + 1) = some r.written) ∧
        (s.replies c).map Reply.written <+: (s.reads c).map (· + 1) := by
  have hrun : ((system.guard fun s a => ReadsSucceed a ∧ NoOverwrite s a).exec (start 3)
      singleRun).map (·.replies 0) = some [⟨66, some 65⟩] := by
    decide +kernel
  obtain ⟨s, hs, hreplies⟩ := Option.map_eq_some_iff.mp hrun
  have hinit : system.init (start 3) := ⟨3, by decide, rfl⟩
  exact ⟨s, System.exec_of_guard hs, hreplies,
    replies_faithful ((System.Reach.init hinit).exec_guard hs)⟩

/-- In the run with two clients both get the successor of `B`: the client that
sent `A` receives `C`. -/
theorem reply_crossed :
    ¬ ∀ s, system.Reach (fun _ a => ReadsSucceed a) s →
      ∀ c, ∀ r ∈ s.replies c, r.lastRead.map (· + 1) = some r.written := by
  intro h
  have hrun : (system.exec (start 3) crossRun).map (·.replies 0) = some [⟨67, some 65⟩] := by
    decide
  obtain ⟨s, hs, hreplies⟩ := Option.map_eq_some_iff.mp hrun
  have hinit : system.init (start 3) := ⟨3, by decide, rfl⟩
  have hreach : system.Reach (fun _ a => ReadsSucceed a) s :=
    (System.Reach.init hinit).exec (fun _ => by decide) hs
  have hbad := h s hreach 0 ⟨67, some 65⟩ (by simp [hreplies])
  exact absurd hbad (by decide)

end ShareBike.PollServer
