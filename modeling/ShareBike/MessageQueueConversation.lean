import ShareBike.Lib.Progress
import ShareBike.MessageQueueRuns

/-!
# One sender and one receiver

`msg_snd` and `msg_rcv` alone with the queue. If the receiver ends well then it has printed
all that was sent. If some text starts with `exit` and nothing fails then both end, in
whatever order they take their steps.
-/
namespace ShareBike.MessageQueue
open ShareBike.Lib

inductive Party
  | sender
  | receiver
  deriving DecidableEq

/-- The sender runs `msg_snd` and the receiver `msg_rcv`. -/
structure Conversation (args : Party → Arg) : Prop where
  sender : (args .sender).program = .msg_snd
  receiver : (args .receiver).program = .msg_rcv

variable {msg_qbytes : ℕ} {args : Party → Arg} {s s' : State Party} {p : Party}

section Pair

/-- A process that has called `msgget`, and goes on. -/
def Pc.open : Pc → Bool
  | fgets => true
  | msgsnd => true
  | msgrcv => true
  | printf => true
  | msgctl => true
  | _ => false

/-- There is at most one queue, between the first `msgget` and the end of the receiver. -/
structure Paired (s : State Party) : Prop where
  sent : ∀ e ∈ s.sent, e.queue = 0 ∧ e.proc = .sender
  taken : ∀ e ∈ s.taken, e.queue = 0 ∧ e.proc = .receiver
  removed : (s.procs .receiver).pc = .exited 0 → s.ids = 1 ∧ s.key = none
  key : (s.procs .receiver).pc ≠ .exited 0 →
    s.ids = 0 ∧ s.key = none ∨ s.ids = 1 ∧ s.key = some 0
  opened : ∀ p, (s.procs p).pc.open → s.ids = 1 ∧ (s.procs p).msgid = some 0

/-- With one process to write into a log, the messages of the queue are those of the
process. -/
lemma onQueue_eq_ofProc {log : List (Entry Party)} {p : Party}
    (h : ∀ e ∈ log, e.queue = 0 ∧ e.proc = p) : onQueue log 0 = ofProc log p := by
  have hqueue : log.filter (·.queue = 0) = log :=
    List.filter_eq_self.mpr fun e he => decide_eq_true (h e he).1
  have hproc : log.filter (·.proc = p) = log :=
    List.filter_eq_self.mpr fun e he => decide_eq_true (h e he).2
  unfold onQueue ofProc
  rw [hqueue, hproc]

/-- What holds in every run of any processes. -/
structure Known (args : Party → Arg) (s : State Party) : Prop where
  queued : Queued s
  does : ∀ p, Does (args p) (s.procs p) (ofProc s.sent p) (ofProc s.taken p)

lemma known_of_reachable {ok : State Party → Act Party → Prop}
    (h : (system msg_qbytes args).Reach ok s) : Known args s :=
  ⟨queued_of_reachable h.reachable, does_of_reachable h.reachable⟩

/-- The receiver has received a start of what the sender sent. -/
lemma Paired.start (h : Paired s) (hknown : Known args s) :
    ofProc s.taken .receiver <+: ofProc s.sent .sender := by
  have hstart := hknown.queued.start 0
  rwa [onQueue_eq_ofProc h.sent, onQueue_eq_ofProc h.taken] at hstart

/-- Once the receiver has got the message to end, it has got all there is, and the sender has
ended. -/
lemma Paired.complete (h : Paired s) (hknown : Known args s) (hconv : Conversation args)
    (hlast : ∃ msg, (ofProc s.taken .receiver).getLast? = some msg ∧ isExit msg) :
    ∃ n, ofProc s.taken .receiver = (List.range (n + 1)).map (args .sender).text ∧
      ofProc s.sent .sender = ofProc s.taken .receiver ∧
      isExit ((args .sender).text n) ∧ (∀ k < n, isExit ((args .sender).text k) = false) ∧
      (s.procs .sender).pc.running = false := by
  have hsends := (hknown.does .sender).sends hconv.sender
  obtain ⟨hprogram, hcalls⟩ := (hknown.does .sender).fits
  rw [hconv.sender] at hprogram
  rw [hprogram] at hcalls
  obtain ⟨msg, hmsg, hexit⟩ := hlast
  obtain ⟨rest, hsplit⟩ := h.start hknown
  -- the message is the text of the turn `n`
  obtain ⟨earlier, hearlier⟩ : ∃ earlier, ofProc s.taken .receiver = earlier ++ [msg] :=
    ⟨_, (List.dropLast_append_getLast? msg hmsg).symm⟩
  have htext : msg = (args .sender).text earlier.length ∧
      earlier.length < (ofProc s.sent .sender).length := by
    have hget : (ofProc s.sent .sender)[earlier.length]? = some msg := by
      rw [← hsplit, hearlier]
      simp
    have hlt : earlier.length < (ofProc s.sent .sender).length :=
      (List.getElem?_eq_some_iff.mp hget).1
    rw [hsends.texts, List.getElem?_map, List.getElem?_range hlt] at hget
    exact ⟨(Option.some.inj hget).symm, hlt⟩
  obtain ⟨rfl, hlt⟩ := htext
  have hall : (ofProc s.sent .sender).length = earlier.length + 1 := by
    by_contra hne
    have hnot := hsends.early earlier.length (by omega)
    rw [hnot] at hexit
    cases hexit
  have hrest : rest = [] := by
    have hlength := congrArg List.length hsplit
    rw [hearlier, List.length_append, List.length_append, List.length_singleton, hall] at hlength
    exact List.eq_nil_of_length_eq_zero (by omega)
  have hsame : ofProc s.sent .sender = ofProc s.taken .receiver := by
    rw [← hsplit, hrest, List.append_nil]
  refine ⟨earlier.length, ?_, hsame, hexit, fun k hk => hsends.early k (by omega), ?_⟩
  · rw [← hsame, ← hall]
    exact hsends.texts
  · cases hpc : (s.procs .sender).pc with
    | msgget | fgets =>
      have hnot := (hsends.loop (by simp [hpc])).2 earlier.length (by omega)
      rw [hnot] at hexit
      cases hexit
    | msgsnd =>
      have hnot := (hsends.full hpc).2 earlier.length (by omega)
      rw [hnot] at hexit
      cases hexit
    | msgrcv | printf | msgctl =>
      rw [hpc] at hcalls
      simp at hcalls
    | exited code | killed => rfl

/-- Nothing is sent or received, and the queue stays. -/
lemma Paired.frame (h : Paired s) (hsent : s'.sent = s.sent) (htaken : s'.taken = s.taken)
    (hids : s'.ids = s.ids) (hkey : s'.key = s.key) {proc : Proc}
    (hprocs : s'.procs = Function.update s.procs p proc) (hrun : (s.procs p).pc.running)
    (hend : p = .receiver → proc.pc ≠ .exited 0)
    (hopen : proc.pc.open → (s.procs p).pc.open ∧ proc.msgid = (s.procs p).msgid) :
    Paired s' := by
  have hsame : (s'.procs .receiver).pc = .exited 0 ↔ (s.procs .receiver).pc = .exited 0 := by
    rw [hprocs]
    by_cases hp : p = .receiver
    · subst hp
      rw [Function.update_self]
      refine iff_of_false (hend rfl) fun he => ?_
      rw [he] at hrun
      cases hrun
    · rw [Function.update_of_ne (Ne.symm hp)]
  refine ⟨hsent ▸ h.sent, htaken ▸ h.taken, ?_, ?_, fun r hr => ?_⟩
  · rw [hids, hkey, hsame]
    exact h.removed
  · rw [hids, hkey, Ne, hsame]
    exact h.key
  · rw [hids]
    rw [hprocs] at hr ⊢
    by_cases hrp : r = p
    · subst hrp
      rw [Function.update_self] at hr ⊢
      rw [(hopen hr).2]
      exact h.opened r (hopen hr).1
    · rw [Function.update_of_ne hrp] at hr ⊢
      exact h.opened r hr

lemma Proc.goto_open {proc : Proc} {pc : Pc} (hpc : pc.open = false) :
    ((proc.goto pc).pc.open : Prop) → proc.pc.open ∧ (proc.goto pc).msgid = proc.msgid := by
  intro ho
  change pc.open at ho
  rw [hpc] at ho
  cases ho

/-- Only the sender sends. -/
lemma Known.eq_sender (hknown : Known args s) (hconv : Conversation args)
    (hpc : (s.procs p).pc = .msgsnd) : p = .sender := by
  obtain ⟨hprogram, hcalls⟩ := (hknown.does p).fits
  cases p with
  | sender => rfl
  | receiver =>
    rw [hpc, hprogram, hconv.receiver] at hcalls
    simp at hcalls

/-- Only the receiver receives, prints and removes the queue. -/
lemma Known.eq_receiver (hknown : Known args s) (hconv : Conversation args)
    (hpc : (s.procs p).pc = .msgrcv ∨ (s.procs p).pc = .printf ∨ (s.procs p).pc = .msgctl) :
    p = .receiver := by
  obtain ⟨hprogram, hcalls⟩ := (hknown.does p).fits
  cases p with
  | sender =>
    rw [hprogram, hconv.sender] at hcalls
    rcases hpc with hpc | hpc | hpc <;> rw [hpc] at hcalls <;> simp at hcalls
  | receiver => rfl

/-- The queue is the one with the number 0. -/
lemma Paired.key_eq (h : Paired s) {q : ℕ} (hkey : s.key = some q) : q = 0 := by
  by_cases hpc : (s.procs .receiver).pc = .exited 0
  · rw [(h.removed hpc).2] at hkey
    cases hkey
  · rcases h.key hpc with ⟨-, hk⟩ | ⟨-, hk⟩ <;> rw [hk] at hkey <;> cases hkey
    rfl

/-- After `msgget` both use the queue with the number 0. -/
lemma Paired.msgget (h : Paired s) (hknown : Known args s) (hconv : Conversation args)
    (hpc : (s.procs p).pc = .msgget) : Paired (s.msgget p) := by
  have hreceiver : (s.procs .receiver).pc ≠ .exited 0 := by
    intro hexited
    have hdone := ((hknown.does .receiver).receives hconv.receiver).done (.inr hexited)
    obtain ⟨n, -, -, -, -, hsender⟩ := h.complete hknown hconv hdone
    cases p with
    | sender =>
      rw [hpc] at hsender
      cases hsender
    | receiver =>
      rw [hpc] at hexited
      cases hexited
  have hpaired : ∀ t : State Party, t.sent = s.sent → t.taken = s.taken → t.ids = 1 →
      t.key = some 0 → t.procs = Function.update s.procs p ((s.procs p).opened 0) → Paired t := by
    intro t hsent htaken hids hkey hprocs
    refine ⟨hsent ▸ h.sent, htaken ▸ h.taken, ?_, fun _ => .inr ⟨hids, hkey⟩, fun r hr => ?_⟩
    · rw [hprocs]
      by_cases hp : p = .receiver
      · rw [hp, Function.update_self]
        intro he
        rcases (s.procs .receiver).opened_pc 0 with ⟨-, hgo⟩ | ⟨-, hgo⟩ | ⟨-, hgo⟩ <;>
          rw [hgo] at he <;> cases he
      · rw [Function.update_of_ne (Ne.symm hp)]
        exact fun he => absurd he hreceiver
    · refine ⟨hids, ?_⟩
      rw [hprocs] at hr ⊢
      by_cases hrp : r = p
      · rw [hrp, Function.update_self]
        rfl
      · rw [Function.update_of_ne hrp] at hr ⊢
        exact (h.opened r hr).2
  unfold State.msgget
  rcases h.key hreceiver with ⟨hids, hkey⟩ | ⟨hids, hkey⟩
  · rw [hkey, hids]
    exact hpaired _ rfl rfl rfl rfl rfl
  · rw [hkey]
    exact hpaired _ rfl rfl hids hkey rfl

lemma Paired.turn (h : Paired s) (hknown : Known args s) (hconv : Conversation args)
    (ht : Turn s p s') : Paired s' := by
  cases ht with
  | fail hrun _ =>
    exact h.frame rfl rfl rfl rfl rfl hrun (fun _ => by simp [Proc.goto]) (Proc.goto_open rfl)
  | kill hrun =>
    exact h.frame rfl rfl rfl rfl rfl hrun (fun _ => by simp [Proc.goto]) (Proc.goto_open rfl)
  | fgets hpc =>
    exact h.frame rfl rfl rfl rfl rfl (by rw [hpc]; rfl) (fun _ => by simp [Proc.read])
      fun _ => ⟨by rw [hpc]; rfl, rfl⟩
  | printf hpc =>
    refine h.frame rfl rfl rfl rfl rfl (by rw [hpc]; rfl) (fun _ he => ?_)
      fun _ => ⟨by rw [hpc]; rfl, rfl⟩
    rcases (s.procs p).print_pc with ⟨hgo, -⟩ | ⟨hgo, -⟩ <;> rw [hgo] at he <;> cases he
  | msgget hpc => exact h.msgget hknown hconv hpc
  | @msgsnd q hpc hkey =>
    obtain rfl := hknown.eq_sender hconv hpc
    obtain rfl := h.key_eq hkey
    have hposted : Paired (s.set .sender (s.procs .sender).posted) :=
      h.frame rfl rfl rfl rfl rfl (by rw [hpc]; rfl) (fun hp => by cases hp)
        fun _ => ⟨by rw [hpc]; rfl, rfl⟩
    refine ⟨?_, hposted.taken, hposted.removed, hposted.key, hposted.opened⟩
    intro e he
    rcases List.mem_append.mp he with he | he
    · exact h.sent e he
    · rw [List.mem_singleton.mp he]
      exact ⟨rfl, rfl⟩
  | @msgrcv q msg rest hpc hkey hcontent =>
    obtain rfl := hknown.eq_receiver hconv (.inl hpc)
    obtain rfl := h.key_eq hkey
    have hreceived : Paired (s.set .receiver ((s.procs .receiver).received msg)) :=
      h.frame rfl rfl rfl rfl rfl (by rw [hpc]; rfl) (fun _ => by simp [Proc.received])
        fun _ => ⟨by rw [hpc]; rfl, rfl⟩
    refine ⟨hreceived.sent, ?_, hreceived.removed, hreceived.key, hreceived.opened⟩
    intro e he
    rcases List.mem_append.mp he with he | he
    · exact h.taken e he
    · rw [List.mem_singleton.mp he]
      exact ⟨rfl, rfl⟩
  | msgctl hpc =>
    obtain rfl := hknown.eq_receiver hconv (.inr (.inr hpc))
    have hids := (h.opened .receiver (by rw [hpc]; rfl)).1
    refine ⟨h.sent, h.taken, fun _ => ⟨hids, rfl⟩, fun he => absurd ?_ he, fun r hr => ?_⟩
    · simp [State.msgctl, State.set, Proc.goto]
    · cases r with
      | sender => exact h.opened .sender hr
      | receiver => cases hr

lemma paired_of_reach {ok : State Party → Act Party → Prop} (hconv : Conversation args)
    (h : (system msg_qbytes args).Reach ok s) : Paired s := by
  refine h.invariant_under (fun s hs => known_of_reachable hs) ?_ ?_
  · rintro s rfl
    refine ⟨?_, ?_, fun hp => (by cases hp), fun _ => .inl ⟨rfl, rfl⟩, fun p hp => by cases hp⟩
    · intro e he
      cases he
    · intro e he
      cases he
  · intro s a s' hknown h _ hs
    obtain ⟨p, ht⟩ := turn_of_step hs
    exact h.turn hknown hconv ht

/-- A receiver that has ended well has printed all that was sent. -/
lemma Paired.delivered (h : Paired s) (hknown : Known args s) (hconv : Conversation args)
    (hpc : (s.procs .receiver).pc = .exited 0) :
    s.key = none ∧ (s.procs .sender).pc.running = false ∧
    ∃ n, (s.procs .receiver).printed = (List.range (n + 1)).map
        (fun k => Checked.string ((args .sender).text k)) ∧
      (s.procs .receiver).printed = (ofProc s.sent .sender).map Checked.string ∧
      isExit ((args .sender).text n) ∧ ∀ k < n, isExit ((args .sender).text k) = false := by
  have hdoes := hknown.does .receiver
  have hlast := (hdoes.receives hconv.receiver).done (.inr hpc)
  obtain ⟨n, htaken, hsent, hexit, hfirst, hsender⟩ := h.complete hknown hconv hlast
  have hprinted := hdoes.prints.all (by simp [hpc]) (by simp [hpc])
  refine ⟨(h.removed hpc).2, hsender, n, ?_, ?_, hexit, hfirst⟩
  · rw [← hprinted, htaken, List.map_map]
    rfl
  · rw [← hprinted, hsent]

end Pair

/-- Whatever fails, the receiver has printed a start of what was sent. If it ends well then
it has printed all that the sender sent, which is the texts of its turns up to the first one
that starts with `exit`, the sender has made its last call, and the queue is gone. -/
theorem conversation_delivers (msg_qbytes : ℕ) (args : Party → Arg) (hconv : Conversation args)
    {s : State Party} (h : (system msg_qbytes args).Reachable s) :
    (s.procs .receiver).printed <+: (ofProc s.sent .sender).map Checked.string ∧
    ((s.procs .receiver).pc = .exited 0 →
      s.key = none ∧ (s.procs .sender).pc.running = false ∧
      ∃ n, (s.procs .receiver).printed = (List.range (n + 1)).map
          (fun k => Checked.string ((args .sender).text k)) ∧
        (s.procs .receiver).printed = (ofProc s.sent .sender).map Checked.string ∧
        isExit ((args .sender).text n) ∧ ∀ k < n, isExit ((args .sender).text k) = false) := by
  have hknown := known_of_reachable h
  have hpaired := paired_of_reach hconv h
  refine ⟨(hknown.does .receiver).prints.start.trans ?_, hpaired.delivered hknown hconv⟩
  obtain ⟨rest, hrest⟩ := hpaired.start hknown
  rw [← hrest, List.map_append]
  exact List.prefix_append _ _

/-- Two lines before the end, and one after it. -/
def twoLines : Party → Arg
  | .sender => ⟨.msg_snd, List.replicate 80 0, utf8 "hello\nexit\nmore\n"⟩
  | .receiver => ⟨.msg_rcv, List.replicate 80 0, []⟩

/-- The receiver starts late. -/
def lateRun : List (Act Party) :=
  [.msgget .sender true, .fgets .sender, .msgsnd .sender true, .msgget .receiver true,
    .msgrcv .receiver true, .fgets .sender, .printf .receiver, .msgsnd .sender true,
    .msgrcv .receiver true, .printf .receiver, .msgctl .receiver true]

theorem conversation_delivers_late : ∃ s,
    (system 100 twoLines).exec (start twoLines) lateRun = some s ∧ s.key = none ∧
      (s.procs .receiver).printed = (ofProc s.sent .sender).map Checked.string := by
  have hrun : ((system 100 twoLines).exec (start twoLines) lateRun).map
      (fun s => (s.procs .receiver).pc) = some (.exited 0) := by
    decide +kernel
  obtain ⟨s, hs, hpc⟩ := Option.map_eq_some_iff.mp hrun
  have hreach : (system 100 twoLines).Reach (fun _ _ => True) s :=
    System.Reach.exec (.init rfl) (fun _ _ _ => trivial) hs
  obtain ⟨hkey, -, n, -, hprinted, -⟩ :=
    (conversation_delivers 100 twoLines ⟨rfl, rfl⟩ hreach).2 hpc
  exact ⟨s, hs, hkey, hprinted⟩

section Progress

/-- A step in which no call fails. -/
def Works : Act Party → Prop
  | .msgget _ ok => ok
  | .msgsnd _ ok => ok
  | .msgrcv _ ok => ok
  | .msgctl _ ok => ok
  | .fgets _ => True
  | .printf _ => True
  | .kill _ => False

/-- What such a step does. -/
inductive Goes (s : State Party) (p : Party) : State Party → Prop
  | msgget : (s.procs p).pc = .msgget → Goes s p (s.msgget p)
  | fgets : (s.procs p).pc = .fgets → Goes s p (s.set p (s.procs p).read)
  | msgsnd {q : ℕ} : (s.procs p).pc = .msgsnd → Goes s p (s.msgsnd p q)
  | msgrcv {q : ℕ} {msg : List UInt8} {rest : List (List UInt8)} : (s.procs p).pc = .msgrcv →
      s.content = msg :: rest → Goes s p (s.msgrcv p q msg rest)
  | printf : (s.procs p).pc = .printf → Goes s p (s.set p (s.procs p).print)
  | msgctl : (s.procs p).pc = .msgctl → Goes s p (s.msgctl p)

lemma goes_of_step {a : Act Party} (ha : Works a) (h : step msg_qbytes s a = some s') :
    ∃ p, Goes s p s' := by
  cases a with
  | msgget p ok =>
    obtain ⟨hpc, he⟩ := Option.ite_none_right_eq_some.mp h
    have hok : ok = true := ha
    rw [if_pos hok] at he
    cases he
    exact ⟨p, .msgget hpc⟩
  | fgets p =>
    obtain ⟨hpc, he⟩ := Option.ite_none_right_eq_some.mp h
    cases he
    exact ⟨p, .fgets hpc⟩
  | msgsnd p ok =>
    obtain ⟨hpc, he⟩ := Option.ite_none_right_eq_some.mp h
    have hok : ok = true := ha
    rw [if_pos hok] at he
    split at he
    · obtain ⟨-, he⟩ := Option.ite_none_right_eq_some.mp he
      cases he
      exact ⟨p, .msgsnd hpc⟩
    · cases he
  | msgrcv p ok =>
    obtain ⟨hpc, he⟩ := Option.ite_none_right_eq_some.mp h
    have hok : ok = true := ha
    rw [if_pos hok] at he
    split at he
    · rename_i hcontent
      obtain ⟨-, he⟩ := Option.ite_none_right_eq_some.mp he
      cases he
      exact ⟨p, .msgrcv hpc hcontent⟩
    · cases he
  | printf p =>
    obtain ⟨hpc, he⟩ := Option.ite_none_right_eq_some.mp h
    cases he
    exact ⟨p, .printf hpc⟩
  | msgctl p ok =>
    obtain ⟨hpc, he⟩ := Option.ite_none_right_eq_some.mp h
    have hok : ok = true := ha
    rw [if_pos hok] at he
    obtain ⟨-, he⟩ := Option.ite_none_right_eq_some.mp he
    cases he
    exact ⟨p, .msgctl hpc⟩
  | kill p => exact ha.elim

/-- No process has failed. -/
def Healthy (s : State Party) : Prop :=
  ∀ p, (s.procs p).pc.running ∨ (s.procs p).pc = .exited 0

lemma Healthy.goes (h : Healthy s) (hg : Goes s p s') : Healthy s' := by
  have hset : ∀ proc : Proc, s'.procs = Function.update s.procs p proc →
      proc.pc.running ∨ proc.pc = .exited 0 → Healthy s' := by
    intro proc hprocs hproc r
    rw [hprocs]
    by_cases hr : r = p
    · rw [hr, Function.update_self]
      exact hproc
    · rw [Function.update_of_ne hr]
      exact h r
  cases hg with
  | msgget hpc =>
    have hopened : ∀ q, ((s.procs p).opened q).pc.running := by
      intro q
      rcases (s.procs p).opened_pc q with ⟨-, hgo⟩ | ⟨-, hgo⟩ | ⟨-, hgo⟩ <;> rw [hgo] <;> rfl
    unfold State.msgget at hset ⊢
    cases hkey : s.key with
    | some q =>
      rw [hkey] at hset
      exact hset _ rfl (.inl (hopened q))
    | none =>
      rw [hkey] at hset
      exact hset _ rfl (.inl (hopened s.ids))
  | fgets hpc => exact hset _ rfl (.inl rfl)
  | msgsnd hpc =>
    refine hset _ rfl ?_
    rcases (s.procs p).posted_pc with ⟨hgo, -⟩ | ⟨hgo, -⟩
    · exact .inr hgo
    · rw [hgo]
      exact .inl rfl
  | msgrcv hpc hcontent => exact hset _ rfl (.inl rfl)
  | printf hpc =>
    refine hset _ rfl (.inl ?_)
    rcases (s.procs p).print_pc with ⟨hgo, -⟩ | ⟨hgo, -⟩ <;> rw [hgo] <;> rfl
  | msgctl hpc => exact hset _ rfl (.inr rfl)

/-- How many steps the sender and the receiver take for the messages up to the last one; a
message that is sent costs the receiver two. -/
def Pc.senderRank (last sent : ℕ) : Pc → ℕ
  | msgget => 4 * (last + 1) + 1
  | fgets => 4 * (last + 1 - sent)
  | msgsnd => 4 * (last + 1 - sent) - 1
  | _ => 0

def Pc.receiverRank : Pc → ℕ
  | msgget => 2
  | msgrcv => 1
  | printf => 2
  | msgctl => 1
  | _ => 0

def State.rank (last : ℕ) (s : State Party) : ℕ :=
  (s.procs .sender).pc.senderRank last (ofProc s.sent .sender).length +
    2 * s.content.length + (s.procs .receiver).pc.receiverRank

/-- The sender does not send after the last text. -/
lemma Sends.length_le {arg : Arg} {proc : Proc} {sent : List (List UInt8)} {last : ℕ}
    (h : Sends arg proc sent) (hexit : isExit (arg.text last))
    (hpc : proc.pc = .fgets ∨ proc.pc = .msgsnd) : sent.length ≤ last := by
  have hearly : ∀ k < sent.length, isExit (arg.text k) = false := by
    rcases hpc with hpc | hpc
    · exact (h.loop (.inr hpc)).2
    · exact (h.full hpc).2
  by_contra hlt
  rw [hearly last (by omega)] at hexit
  cases hexit

lemma rank_msgget {last : ℕ} (hknown : Known args s) (hconv : Conversation args)
    (hpc : (s.procs p).pc = .msgget) : (s.msgget p).rank last < s.rank last := by
  have hsent : (s.msgget p).sent = s.sent := by
    unfold State.msgget
    split <;> rfl
  have hcontent : (s.msgget p).content.length ≤ s.content.length := by
    unfold State.msgget
    split
    · exact Nat.le_refl _
    · exact Nat.zero_le _
  have hprocs : ∃ q, (s.msgget p).procs = Function.update s.procs p ((s.procs p).opened q) := by
    unfold State.msgget
    split
    · exact ⟨_, rfl⟩
    · exact ⟨_, rfl⟩
  obtain ⟨q, hprocs⟩ := hprocs
  unfold State.rank
  rw [hsent, hprocs]
  cases p with
  | sender =>
    have hgo : ((s.procs .sender).opened q).pc = .fgets := by
      have hprogram := (hknown.does .sender).fits.1
      rw [hconv.sender] at hprogram
      unfold Proc.opened
      rw [hprogram]
    rw [Function.update_self, Function.update_of_ne (by decide), hgo, hpc]
    simp only [Pc.senderRank]
    omega
  | receiver =>
    have hgo : ((s.procs .receiver).opened q).pc = .msgrcv := by
      have hprogram := (hknown.does .receiver).fits.1
      rw [hconv.receiver] at hprogram
      unfold Proc.opened
      rw [hprogram]
    rw [Function.update_self, Function.update_of_ne (by decide), hgo, hpc]
    simp only [Pc.receiverRank]
    omega

/-- The step lemma: every step that works lowers the rank. -/
lemma rank_goes {last : ℕ} (hknown : Known args s) (hconv : Conversation args)
    (hexit : isExit ((args .sender).text last)) (hg : Goes s p s') :
    s'.rank last < s.rank last := by
  have hsends := (hknown.does .sender).sends hconv.sender
  cases hg with
  | msgget hpc => exact rank_msgget hknown hconv hpc
  | fgets hpc =>
    obtain ⟨hprogram, hcalls⟩ := (hknown.does p).fits
    cases p with
    | sender =>
      have hle := hsends.length_le hexit (.inl hpc)
      unfold State.rank State.set
      dsimp only
      rw [Function.update_self, Function.update_of_ne (by decide), hpc]
      simp only [Proc.read, Pc.senderRank]
      omega
    | receiver =>
      rw [hpc, hprogram, hconv.receiver] at hcalls
      cases hcalls
  | msgsnd hpc =>
    obtain rfl := hknown.eq_sender hconv hpc
    have hle := hsends.length_le hexit (.inr hpc)
    unfold State.rank State.msgsnd State.set
    dsimp only
    rw [Function.update_self, Function.update_of_ne (by decide), hpc, ofProc_concat, if_pos rfl]
    rcases (s.procs .sender).posted_pc with ⟨hgo, -⟩ | ⟨hgo, -⟩
    · rw [hgo]
      simp only [Pc.senderRank, List.length_append, List.length_singleton]
      omega
    · rw [hgo]
      simp only [Pc.senderRank, List.length_append, List.length_singleton]
      omega
  | msgrcv hpc hcontent =>
    obtain rfl := hknown.eq_receiver hconv (.inl hpc)
    unfold State.rank State.msgrcv State.set
    dsimp only
    rw [Function.update_self, Function.update_of_ne (by decide), hpc, hcontent]
    simp only [Proc.received, Pc.receiverRank, List.length_cons]
    omega
  | printf hpc =>
    obtain rfl := hknown.eq_receiver hconv (.inr (.inl hpc))
    unfold State.rank State.set
    dsimp only
    rw [Function.update_self, Function.update_of_ne (by decide), hpc]
    rcases (s.procs .receiver).print_pc with ⟨hgo, -⟩ | ⟨hgo, -⟩
    · rw [hgo]
      simp only [Pc.receiverRank]
      omega
    · rw [hgo]
      simp only [Pc.receiverRank]
      omega
  | msgctl hpc =>
    obtain rfl := hknown.eq_receiver hconv (.inr (.inr hpc))
    unfold State.rank State.msgctl State.set
    dsimp only
    rw [Function.update_self, Function.update_of_ne (by decide), hpc]
    simp only [Proc.goto, Pc.receiverRank, List.length_nil]
    omega

/-- What holds in every state of a run in which nothing fails. -/
structure Sound (args : Party → Arg) (s : State Party) : Prop where
  known : Known args s
  paired : Paired s
  healthy : Healthy s

lemma sound_of_reach (hconv : Conversation args)
    (h : (system msg_qbytes args).Reach (fun _ a => Works a) s) : Sound args s := by
  refine ⟨known_of_reachable h, paired_of_reach hconv h, ?_⟩
  refine h.invariant (fun s hs p => ?_) fun s a s' hI ha hs => ?_
  · subst hs
    exact .inl rfl
  · obtain ⟨p, hg⟩ := goes_of_step ha hs
    exact hI.goes hg

/-- The queue exists as long as somebody uses it. -/
lemma Paired.key_of_open (h : Paired s) (hp : (s.procs p).pc.open)
    (hreceiver : (s.procs .receiver).pc ≠ .exited 0) :
    s.key = some 0 ∧ (s.procs p).msgid = some 0 := by
  obtain ⟨hids, hmsgid⟩ := h.opened p hp
  refine ⟨?_, hmsgid⟩
  rcases h.key hreceiver with ⟨hzero, -⟩ | ⟨-, hkey⟩
  · omega
  · exact hkey

/-- When nobody can go on, a receiver that has not ended waits at an empty queue. -/
lemma Sound.receiver_idle (h : Sound args s) (hconv : Conversation args)
    (hstuck : (system msg_qbytes args).Stuck Works s) :
    (s.procs .receiver).pc = .exited 0 ∨
      (s.procs .receiver).pc = .msgrcv ∧ s.key = some 0 ∧ s.content = [] := by
  have hnone : ∀ a : Act Party, Works a → step msg_qbytes s a = none := hstuck
  obtain ⟨hprogram, hcalls⟩ := (h.known.does .receiver).fits
  have hhealthy := h.healthy .receiver
  rw [hprogram, hconv.receiver] at hcalls
  cases hpc : (s.procs .receiver).pc with
  | msgget =>
    have hs := hnone (.msgget .receiver true) rfl
    simp [step, hpc] at hs
  | fgets | msgsnd =>
    rw [hpc] at hcalls
    simp at hcalls
  | msgrcv =>
    obtain ⟨hkey, hmsgid⟩ := h.paired.key_of_open (by rw [hpc]; rfl) (by simp [hpc])
    refine .inr ⟨rfl, hkey, ?_⟩
    cases hcontent : s.content with
    | nil => rfl
    | cons msg rest =>
      have hs := hnone (.msgrcv .receiver true) rfl
      simp [step, hpc, hkey, hcontent, hmsgid] at hs
  | printf =>
    have hs := hnone (.printf .receiver) trivial
    simp [step, hpc] at hs
  | msgctl =>
    obtain ⟨hkey, hmsgid⟩ := h.paired.key_of_open (by rw [hpc]; rfl) (by simp [hpc])
    have hs := hnone (.msgctl .receiver true) rfl
    simp [step, hpc, hkey, hmsgid] at hs
  | exited code =>
    rw [hpc] at hhealthy
    exact .inl (hhealthy.resolve_left fun hrun => by cases hrun)
  | killed =>
    rw [hpc] at hhealthy
    rcases hhealthy with hrun | hend
    · cases hrun
    · cases hend

/-- When nobody can go on, the sender has made its last call: at a full queue the receiver
could go on. -/
lemma Sound.sender_ended (h : Sound args s) (hconv : Conversation args)
    (hroom : MSG_SIZE ≤ msg_qbytes) (hstuck : (system msg_qbytes args).Stuck Works s) :
    (s.procs .sender).pc = .exited 0 := by
  have hnone : ∀ a : Act Party, Works a → step msg_qbytes s a = none := hstuck
  obtain ⟨hprogram, hcalls⟩ := (h.known.does .sender).fits
  have hhealthy := h.healthy .sender
  rw [hprogram, hconv.sender] at hcalls
  cases hpc : (s.procs .sender).pc with
  | msgget =>
    have hs := hnone (.msgget .sender true) rfl
    simp [step, hpc] at hs
  | fgets =>
    have hs := hnone (.fgets .sender) trivial
    simp [step, hpc] at hs
  | msgsnd =>
    exfalso
    rcases h.receiver_idle hconv hstuck with hexited | ⟨hrcv, hkey, hempty⟩
    · have hdone := ((h.known.does .receiver).receives hconv.receiver).done (.inr hexited)
      obtain ⟨n, -, -, -, -, hsender⟩ := h.paired.complete h.known hconv hdone
      rw [hpc] at hsender
      cases hsender
    · obtain ⟨-, hmsgid⟩ := h.paired.opened .sender (by rw [hpc]; rfl)
      have hs := hnone (.msgsnd .sender true) rfl
      simp only [step, hpc, hkey, hmsgid, hempty, if_true, true_and, List.length_nil,
        Nat.zero_add, Nat.mul_one] at hs
      rw [if_pos hroom] at hs
      cases hs
  | msgrcv | printf | msgctl =>
    rw [hpc] at hcalls
    simp at hcalls
  | exited code =>
    rw [hpc] at hhealthy
    exact hhealthy.resolve_left fun hrun => by cases hrun
  | killed =>
    rw [hpc] at hhealthy
    rcases hhealthy with hrun | hend
    · cases hrun
    · cases hend

/-- When nobody can go on, the receiver has ended: at an empty queue it would have got the
message to end. -/
lemma Sound.receiver_ended (h : Sound args s) (hconv : Conversation args)
    (hroom : MSG_SIZE ≤ msg_qbytes) (hstuck : (system msg_qbytes args).Stuck Works s) :
    (s.procs .receiver).pc = .exited 0 := by
  refine (h.receiver_idle hconv hstuck).resolve_right ?_
  rintro ⟨hrcv, hkey, hempty⟩
  have hsends := (h.known.does .sender).sends hconv.sender
  obtain ⟨k, hlength, hexit⟩ := hsends.done (h.sender_ended hconv hroom hstuck)
  have hsame : ofProc s.sent .sender = ofProc s.taken .receiver := by
    have hsplit := (h.known.queued.current 0 hkey).2
    rwa [hempty, List.append_nil, onQueue_eq_ofProc h.paired.sent,
      onQueue_eq_ofProc h.paired.taken] at hsplit
  have hlast : (args .sender).text k ∈ ofProc s.taken .receiver := by
    rw [← hsame, hsends.texts, hlength, List.range_succ]
    simp
  have hnot := ((h.known.does .receiver).receives hconv.receiver).loop (.inr hrcv) _ hlast
  rw [hnot] at hexit
  cases hexit

/-- The steps in which nothing fails descend. -/
lemma descends {last : ℕ} (hconv : Conversation args)
    (hexit : isExit ((args .sender).text last)) :
    (system msg_qbytes args).Descends Works
      ((system msg_qbytes args).Reach fun _ a => Works a) (State.rank last) := by
  intro s a s' h ha hs
  obtain ⟨p, hg⟩ := goes_of_step ha hs
  exact ⟨.step h ha hs, rank_goes (known_of_reachable h) hconv hexit hg⟩

end Progress

section Texts

variable {arg : Arg} {n : ℕ}

/-- What the receiver prints for the texts is the input that they were read from. -/
lemma texts_flatten (hnul : 0 ∉ arg.stdin)
    (hlines : ∀ k < n, ((fgets MSG_SIZE)^[k] (arg.garbage, arg.stdin)).2 ≠ []) :
    ((List.range n).map fun k => cstr (arg.text k)).flatten ++
      ((fgets MSG_SIZE)^[n] (arg.garbage, arg.stdin)).2 = arg.stdin := by
  have hread := flatMap_fgets (p := (arg.garbage, arg.stdin)) (by decide : 1 < MSG_SIZE) hnul hlines
  rw [List.flatMap_def] at hread
  exact hread

/-- A text that was read is a C string. -/
lemma string_text {k : ℕ} (hline : ((fgets MSG_SIZE)^[k] (arg.garbage, arg.stdin)).2 ≠ []) :
    Checked.string (arg.text k) = .ok (cstr (arg.text k)) := by
  have hmem : 0 ∈ arg.text k := by
    unfold Arg.text
    rw [Function.iterate_succ_apply']
    exact nul_mem_fgets (by decide) (.inl hline)
  obtain ⟨text, rest, htext⟩ := List.append_of_mem hmem
  rw [htext, Checked.string_append_nul, cstr_append_nul]

end Texts

/-- If a text starts with `exit`, the queue has room for one message and nothing fails, then
both end, whatever the order of their steps is: the steps are bounded, and where nobody can
go on both have ended well, the queue is gone and everything up to the first such text was
printed. If the input has no NUL and does not end before, then what was printed is the input
up to that line. -/
theorem conversation_ends (msg_qbytes : ℕ) (args : Party → Arg) (hconv : Conversation args)
    (hroom : MSG_SIZE ≤ msg_qbytes) (last : ℕ) (hexit : isExit ((args .sender).text last))
    (hfirst : ∀ k < last, isExit ((args .sender).text k) = false) {s : State Party}
    (h : (system msg_qbytes args).Reach (fun _ a => Works a) s) :
    (∀ as s', (∀ a ∈ as, Works a) → (system msg_qbytes args).exec s as = some s' →
      as.length + s'.rank last ≤ s.rank last ∧
      ((system msg_qbytes args).Stuck Works s' →
        (∀ p, (s'.procs p).pc = .exited 0) ∧ s'.key = none ∧
        (s'.procs .receiver).printed = (List.range (last + 1)).map
          (fun k => Checked.string ((args .sender).text k)) ∧
        (0 ∉ (args .sender).stdin →
          (∀ k ≤ last, ((fgets MSG_SIZE)^[k]
            ((args .sender).garbage, (args .sender).stdin)).2 ≠ []) →
          ∃ (texts : List (List UInt8)) (rest : List UInt8),
            (s'.procs .receiver).printed = texts.map .ok ∧
            texts.flatten ++ rest = (args .sender).stdin))) ∧
    ∃ as s', (∀ a ∈ as, Works a) ∧ (system msg_qbytes args).exec s as = some s' ∧
      (system msg_qbytes args).Stuck Works s' := by
  have hdesc : (system msg_qbytes args).Descends Works _ _ := descends hconv hexit
  refine ⟨fun as s' hworks hexec => ?_, hdesc.exists_stuck h⟩
  obtain ⟨hreach, hlength⟩ := hdesc.exec h hworks hexec
  refine ⟨hlength, fun hstuck => ?_⟩
  have hsound := sound_of_reach hconv hreach
  have hsender := hsound.sender_ended hconv hroom hstuck
  have hreceiver := hsound.receiver_ended hconv hroom hstuck
  obtain ⟨hkey, -, n, hprinted, -, hend, hbefore⟩ :=
    hsound.paired.delivered hsound.known hconv hreceiver
  -- both `n` and `last` are the first turn with such a text
  have hn : n = last := by
    rcases Nat.lt_trichotomy n last with hlt | heq | hgt
    · rw [hfirst n hlt] at hend
      cases hend
    · exact heq
    · rw [hbefore last hgt] at hexit
      cases hexit
  subst hn
  refine ⟨fun p => ?_, hkey, hprinted, fun hnul hlines => ?_⟩
  · cases p with
    | sender => exact hsender
    | receiver => exact hreceiver
  · refine ⟨_, _, ?_, texts_flatten (n := n + 1) hnul fun k hk => hlines k (by omega)⟩
    rw [hprinted, List.map_map]
    refine List.map_congr_left fun k hk => string_text (hlines k ?_)
    have hlt := List.mem_range.mp hk
    omega

/-- With room for one message. -/
theorem conversation_ends_two : ∃ as s', (system 100 twoLines).exec (start twoLines) as = some s' ∧
    (s'.procs .receiver).printed =
      (List.range 2).map fun k => Checked.string ((twoLines .sender).text k) := by
  have hexit : isExit ((twoLines .sender).text 1) := by decide +kernel
  have hfirst : ∀ k < 1, isExit ((twoLines .sender).text k) = false := by decide +kernel
  obtain ⟨hall, as, s', hworks, hexec, hstuck⟩ :=
    conversation_ends 100 twoLines ⟨rfl, rfl⟩ (by decide) 1 hexit hfirst (.init rfl)
  exact ⟨as, s', hexec, ((hall as s' hworks hexec).2 hstuck).2.2.1⟩

end ShareBike.MessageQueue
