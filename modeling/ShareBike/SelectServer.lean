import ShareBike.Lib.Transition
import Mathlib.Data.Finset.Basic

/-!
# The server that multiplexes its clients with `select`

One iteration of the loop copies `readfds`, waits in `select` for at most two
seconds and then visits every descriptor below `FD_SETSIZE`. A label fixes what
the kernel answers: the outcome of `select`, and for a visited descriptor the
new socket of `accept`, the byte count of `FIONREAD` and the byte of `read`.
-/
namespace ShareBike.SelectServer
open ShareBike.Lib

/-- `FD_SETSIZE`. -/
def fdSetsize : ℕ := 1024

/-- The control point: the head of `while(1)`, or the scan standing at `fd`. -/
inductive Loop
  | top
  | scan (fd : ℕ) (testfds : Finset ℕ)
  | exited
  deriving DecidableEq

/-- `clients` is the kernel's view: the sockets that `accept` returned and that
the server has not closed. The bytes written to each client are in `replies`. -/
structure Server where
  serverSockfd : ℕ
  readfds : Finset ℕ
  clients : Finset ℕ
  ch : UInt8
  replies : List (ℕ × UInt8)
  loop : Loop

inductive SelectResult
  | error
  | timeout
  | ready (testfds : Finset ℕ)
  deriving DecidableEq

inductive Act
  | select (result : SelectResult)
  | visit (newFd nread : ℕ) (byte : UInt8)

/-- After `listen`, with the listening socket alone in `readfds`. -/
def start (serverSockfd : ℕ) : Server :=
  ⟨serverSockfd, {serverSockfd}, ∅, 0, [], .top⟩

/-- The branch for the listening socket: `accept`, then `FD_SET`. -/
def acceptClient (s : Server) (newFd : ℕ) : Server :=
  { s with readfds := insert newFd s.readfds, clients := insert newFd s.clients }

/-- The branch for a client: close it at end of file, else answer one byte. -/
def serveClient (s : Server) (fd nread : ℕ) (byte : UInt8) : Server :=
  if nread = 0 then { s with readfds := s.readfds.erase fd, clients := s.clients.erase fd }
  else { s with ch := byte + 1, replies := s.replies ++ [(fd, byte + 1)] }

def visitFd (s : Server) (fd : ℕ) (testfds : Finset ℕ) (newFd nread : ℕ) (byte : UInt8) :
    Server :=
  if fd ∈ testfds then
    if fd = s.serverSockfd then acceptClient s newFd else serveClient s fd nread byte
  else s

/-- `accept` returns a descriptor that is not open and fits into an `fd_set`. -/
abbrev Fresh (s : Server) (newFd : ℕ) : Prop :=
  newFd < fdSetsize ∧ newFd ≠ s.serverSockfd ∧ newFd ∉ s.clients

/-- One pass of `while(1)` up to the scan, or one pass of the scan. -/
def step (s : Server) (a : Act) : Option Server :=
  match s.loop, a with
  | .top, .select .error => some { s with loop := .exited }
  -- the two-second limit passed: `FD_ZERO`, then the listening socket alone
  | .top, .select .timeout => some { s with readfds := {s.serverSockfd} }
  | .top, .select (.ready t) =>
    if t.Nonempty ∧ t ⊆ s.readfds then some { s with loop := .scan 0 t } else none
  | .scan fd t, .visit newFd nread byte =>
    if fd < fdSetsize then
      if fd ∈ t ∧ fd = s.serverSockfd → Fresh s newFd then
        some { visitFd s fd t newFd nread byte with loop := .scan (fd + 1) t }
      else none
    else some { s with loop := .top }
  | _, _ => none

def system : System Server Act where
  init s := ∃ fd < fdSetsize, s = start fd
  step := step

/-- `readfds` is the listening socket together with the open clients. -/
def Monitored (s : Server) : Prop := s.readfds = insert s.serverSockfd s.clients

/-- The listening socket is not one of the clients. -/
def Listening (s : Server) : Prop := s.serverSockfd ∉ s.clients

/-- Accepting, serving and closing keep the set in agreement with the clients. -/
lemma visitFd_monitored {s : Server} (h : Monitored s) (fd : ℕ) (t : Finset ℕ)
    (newFd nread : ℕ) (byte : UInt8) : Monitored (visitFd s fd t newFd nread byte) := by
  unfold Monitored at h ⊢
  unfold visitFd acceptClient serveClient
  split_ifs with ht hs hn
  · simp only [h, Finset.insert_comm]
  · simp only [h, Finset.erase_insert_of_ne (Ne.symm hs)]
  · exact h
  · exact h

lemma visitFd_listening {s : Server} (h : Listening s) {fd : ℕ} {t : Finset ℕ} {newFd : ℕ}
    (hfresh : fd ∈ t ∧ fd = s.serverSockfd → Fresh s newFd) (nread : ℕ) (byte : UInt8) :
    Listening (visitFd s fd t newFd nread byte) := by
  unfold Listening at h ⊢
  unfold visitFd acceptClient serveClient
  split_ifs with ht hs hn
  · have hne := (hfresh ⟨ht, hs⟩).2.1
    simp only [Finset.mem_insert, not_or]
    exact ⟨Ne.symm hne, h⟩
  · exact fun hm => h (Finset.mem_of_mem_erase hm)
  · exact h
  · exact h

/-- The time limit passes only while no client is connected. -/
def Quiet (s : Server) (a : Act) : Prop := a = .select .timeout → s.clients = ∅

lemma step_keeps {s s' : Server} {a : Act} (h : Monitored s ∧ Listening s) (hq : Quiet s a)
    (hs : step s a = some s') : Monitored s' ∧ Listening s' := by
  unfold step at hs
  split at hs
  · cases hs; exact h
  · cases hs
    exact ⟨by simp [Monitored, hq rfl], h.2⟩
  · split_ifs at hs
    cases hs; exact h
  · split_ifs at hs with _ hfresh
    · cases hs
      exact ⟨visitFd_monitored h.1 _ _ _ _ _, visitFd_listening h.2 hfresh _ _⟩
    · cases hs; exact h
  · cases hs

/-- When the time limit passes, the loop is back at its head with the listening
socket alone: a connected client is no longer monitored. -/
lemma step_loses {s s' : Server} {a : Act} (h : Monitored s ∧ Listening s) (hq : ¬ Quiet s a)
    (hs : step s a = some s') : ¬ (s'.loop = .top → Monitored s') := by
  simp only [Quiet, not_forall] at hq
  obtain ⟨rfl, hne⟩ := hq
  obtain ⟨x, hx⟩ := Finset.nonempty_iff_ne_empty.mpr hne
  cases hloop : s.loop <;> simp only [step, hloop, Option.some.injEq, reduceCtorEq] at hs
  subst hs
  intro hm
  have hmem : x ∈ insert s.serverSockfd s.clients := Finset.mem_insert_of_mem hx
  have he : ({s.serverSockfd} : Finset ℕ) = insert s.serverSockfd s.clients := hm rfl
  rw [← he, Finset.mem_singleton] at hmem
  exact h.2 (hmem ▸ hx)

/-- In a run of the loop, `readfds` is the listening socket together with the
open clients at the head of every iteration if and only if the two-second limit
of `select` passes only while no client is connected. -/
theorem monitored_iff_quiet (serverSockfd : ℕ) (as : List Act) :
    system.Throughout
        (fun s => s.loop = .top → s.readfds = insert s.serverSockfd s.clients)
        (start serverSockfd) as ↔
      system.Along (fun s a => a = .select .timeout → s.clients = ∅) (start serverSockfd) as :=
  System.throughout_iff_along (fun _ h _ => h.1) (fun _ _ _ => step_keeps)
    (fun _ _ _ => step_loses) ⟨rfl, Finset.notMem_empty _⟩ as

/-- A scan past the last ready descriptor changes nothing. -/
lemma exec_skip (s : Server) (t : Finset ℕ) (newFd nread : ℕ) (byte : UInt8) (k fd : ℕ)
    (hk : fd + k = fdSetsize) (ht : ∀ x ∈ t, x < fd) :
    system.exec { s with loop := .scan fd t }
        (List.replicate (k + 1) (.visit newFd nread byte)) = some { s with loop := .top } := by
  induction k generalizing fd with
  | zero => simp [System.exec, system, step, ← hk]
  | succ k ih =>
    have hfd : fd < fdSetsize := by omega
    have hnot : fd ∉ t := fun h => lt_irrefl _ (ht fd h)
    rw [List.replicate_succ, System.exec_cons]
    refine ⟨{ s with loop := .scan (fd + 1) t }, ?_, ih (fd + 1) (by omega)
      fun x hx => (ht x hx).trans (Nat.lt_succ_self fd)⟩
    simp [system, step, hfd, hnot, visitFd]

/-- One client connects on descriptor 4, and stays silent for two seconds. -/
def idleRun : List Act :=
  .select (.ready {3}) :: List.replicate 4 (.visit 4 0 0) ++
    (List.replicate (fdSetsize - 4 + 1) (.visit 4 0 0) ++ [.select .timeout])

lemma exec_idleRun :
    system.exec (start 3) idleRun = some ⟨3, {3}, {4}, 0, [], .top⟩ := by
  have hskip := exec_skip ⟨3, {4, 3}, {4}, 0, [], .top⟩ {3} 4 0 0 (fdSetsize - 4) 4 rfl
    (by simp)
  refine System.exec_append.mpr ⟨⟨3, {4, 3}, {4}, 0, [], .scan 4 {3}⟩, by rfl, ?_⟩
  exact System.exec_append.mpr ⟨_, hskip, rfl⟩

/-- After the silent interval the client on descriptor 4 is still open, and the
loop is at its head with the listening socket alone in `readfds`. -/
theorem idle_client_lost :
    ¬ system.Throughout
        (fun s => s.loop = .top → s.readfds = insert s.serverSockfd s.clients)
        (start 3) idleRun := by
  intro h
  have hlast := h.of_exec exec_idleRun rfl
  exact absurd hlast (by decide)

end ShareBike.SelectServer
