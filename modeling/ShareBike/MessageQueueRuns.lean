import ShareBike.MessageQueue

/-!
# Messages arrive in order

Whatever the processes are, and whichever calls fail: of each queue a start of what was
sent has been received, every sender has sent a start of its input, and every receiver has
printed what it received.
-/
namespace ShareBike.MessageQueue
open ShareBike.Lib

variable {P : Type} [DecidableEq P] {msg_qbytes : ℕ} {s s' : State P} {p : P} {args : P → Arg}

section Turn

/-- What one step of a process does. -/
inductive Turn (s : State P) (p : P) : State P → Prop
  | fail : (s.procs p).pc.running → (s.procs p).pc ≠ .printf → Turn s p (s.fail p)
  | kill : (s.procs p).pc.running → Turn s p (s.set p ((s.procs p).goto .killed))
  | msgget : (s.procs p).pc = .msgget → Turn s p (s.msgget p)
  | fgets : (s.procs p).pc = .fgets → Turn s p (s.set p (s.procs p).read)
  | msgsnd {q : ℕ} : (s.procs p).pc = .msgsnd → s.key = some q → Turn s p (s.msgsnd p q)
  | msgrcv {q : ℕ} {msg : List UInt8} {rest : List (List UInt8)} : (s.procs p).pc = .msgrcv →
      s.key = some q → s.content = msg :: rest → Turn s p (s.msgrcv p q msg rest)
  | printf : (s.procs p).pc = .printf → Turn s p (s.set p (s.procs p).print)
  | msgctl : (s.procs p).pc = .msgctl → Turn s p (s.msgctl p)

lemma turn_of_step {a : Act P} (h : step msg_qbytes s a = some s') : ∃ p, Turn s p s' := by
  cases a with
  | msgget p ok =>
    obtain ⟨hpc, he⟩ := Option.ite_none_right_eq_some.mp h
    cases ok with
    | true =>
      cases he
      exact ⟨p, .msgget hpc⟩
    | false =>
      cases he
      exact ⟨p, .fail (by rw [hpc]; rfl) (by simp [hpc])⟩
  | fgets p =>
    obtain ⟨hpc, he⟩ := Option.ite_none_right_eq_some.mp h
    cases he
    exact ⟨p, .fgets hpc⟩
  | msgsnd p ok =>
    obtain ⟨hpc, he⟩ := Option.ite_none_right_eq_some.mp h
    cases ok with
    | true =>
      simp only [if_true] at he
      split at he
      · rename_i q hkey
        obtain ⟨-, he⟩ := Option.ite_none_right_eq_some.mp he
        cases he
        exact ⟨p, .msgsnd hpc hkey⟩
      · cases he
    | false =>
      cases he
      exact ⟨p, .fail (by rw [hpc]; rfl) (by simp [hpc])⟩
  | msgrcv p ok =>
    obtain ⟨hpc, he⟩ := Option.ite_none_right_eq_some.mp h
    cases ok with
    | true =>
      simp only [if_true] at he
      split at he
      · rename_i q msg rest hkey hcontent
        obtain ⟨-, he⟩ := Option.ite_none_right_eq_some.mp he
        cases he
        exact ⟨p, .msgrcv hpc hkey hcontent⟩
      · cases he
    | false =>
      cases he
      exact ⟨p, .fail (by rw [hpc]; rfl) (by simp [hpc])⟩
  | printf p =>
    obtain ⟨hpc, he⟩ := Option.ite_none_right_eq_some.mp h
    cases he
    exact ⟨p, .printf hpc⟩
  | msgctl p ok =>
    obtain ⟨hpc, he⟩ := Option.ite_none_right_eq_some.mp h
    cases ok with
    | true =>
      simp only [if_true] at he
      obtain ⟨-, he⟩ := Option.ite_none_right_eq_some.mp he
      cases he
      exact ⟨p, .msgctl hpc⟩
    | false =>
      cases he
      exact ⟨p, .fail (by rw [hpc]; rfl) (by simp [hpc])⟩
  | kill p =>
    obtain ⟨hpc, he⟩ := Option.ite_none_right_eq_some.mp h
    cases he
    exact ⟨p, .kill hpc⟩

end Turn

section Queues

/-- What holds of the queues: the messages of the one that exists are what was sent to it
and not yet received, and of the others a start of what was sent was received. -/
structure Queued (s : State P) : Prop where
  current : ∀ q, s.key = some q →
    q < s.ids ∧ onQueue s.sent q = onQueue s.taken q ++ s.content
  start : ∀ q, onQueue s.taken q <+: onQueue s.sent q
  fresh : ∀ q, s.ids ≤ q → onQueue s.sent q = [] ∧ onQueue s.taken q = []

lemma Queued.turn (h : Queued s) (ht : Turn s p s') : Queued s' := by
  cases ht with
  | fail | kill | fgets | printf => exact ⟨h.current, h.start, h.fresh⟩
  | msgget hpc =>
    unfold State.msgget
    cases hkey : s.key with
    | some q => exact ⟨h.current, h.start, h.fresh⟩
    | none =>
      refine ⟨?_, h.start, ?_⟩
      · rintro q ⟨rfl⟩
        obtain ⟨hsent, htaken⟩ := h.fresh s.ids (Nat.le_refl _)
        refine ⟨Nat.lt_succ_self _, ?_⟩
        change onQueue s.sent s.ids = onQueue s.taken s.ids ++ []
        rw [hsent, htaken, List.append_nil]
      · intro q hq
        exact h.fresh q (Nat.le_of_succ_le hq)
  | @msgsnd q hpc hkey =>
    obtain ⟨hlt, hsplit⟩ := h.current q hkey
    refine ⟨?_, ?_, ?_⟩
    · intro r hr
      obtain rfl : q = r := Option.some.inj (hkey.symm.trans hr)
      refine ⟨hlt, ?_⟩
      change onQueue (s.sent ++ [⟨q, p, (s.procs p).msg⟩]) q =
        onQueue s.taken q ++ (s.content ++ [(s.procs p).msg])
      rw [onQueue_concat, if_pos rfl, hsplit, List.append_assoc]
    · intro r
      change onQueue s.taken r <+: onQueue (s.sent ++ [⟨q, p, (s.procs p).msg⟩]) r
      rw [onQueue_concat]
      exact (h.start r).trans (List.prefix_append _ _)
    · intro r hr
      change s.ids ≤ r at hr
      obtain ⟨hsent, htaken⟩ := h.fresh r hr
      refine ⟨?_, htaken⟩
      change onQueue (s.sent ++ [⟨q, p, (s.procs p).msg⟩]) r = []
      rw [onQueue_concat, hsent, if_neg (by simp only; omega), List.append_nil]
  | @msgrcv q msg rest hpc hkey hcontent =>
    obtain ⟨hlt, hsplit⟩ := h.current q hkey
    have htaken : onQueue (s.taken ++ [⟨q, p, msg⟩]) q = onQueue s.taken q ++ [msg] := by
      rw [onQueue_concat, if_pos rfl]
    have hother : ∀ r, r ≠ q → onQueue (s.taken ++ [⟨q, p, msg⟩]) r = onQueue s.taken r := by
      intro r hr
      rw [onQueue_concat, if_neg (Ne.symm hr), List.append_nil]
    have hcurrent : onQueue s.sent q = onQueue (s.taken ++ [⟨q, p, msg⟩]) q ++ rest := by
      rw [hsplit, htaken, hcontent, List.append_assoc, List.singleton_append]
    refine ⟨?_, ?_, ?_⟩
    · intro r hr
      obtain rfl : q = r := Option.some.inj (hkey.symm.trans hr)
      exact ⟨hlt, hcurrent⟩
    · intro r
      change onQueue (s.taken ++ [⟨q, p, msg⟩]) r <+: onQueue s.sent r
      by_cases hr : r = q
      · rw [hr, hcurrent]
        exact List.prefix_append _ _
      · rw [hother r hr]
        exact h.start r
    · intro r hr
      change s.ids ≤ r at hr
      obtain ⟨hsent, hnone⟩ := h.fresh r hr
      refine ⟨hsent, ?_⟩
      change onQueue (s.taken ++ [⟨q, p, msg⟩]) r = []
      rw [hother r (by omega), hnone]
  | msgctl hpc =>
    refine ⟨?_, h.start, h.fresh⟩
    rintro q ⟨⟩

lemma queued_of_reachable (h : (system msg_qbytes args).Reachable s) : Queued s := by
  refine h.invariant ?_ fun s a s' hI _ hs => ?_
  · rintro s rfl
    refine ⟨?_, fun q => List.prefix_rfl, fun q _ => ⟨rfl, rfl⟩⟩
    rintro q ⟨⟩
  · obtain ⟨p, ht⟩ := turn_of_step hs
    exact hI.turn ht

end Queues

section Processes

/-- What one step does to the process that takes it: the process afterwards, what it sent
and what it received. -/
inductive Turns (proc : Proc) : Proc → List (List UInt8) → List (List UInt8) → Prop
  | fail : proc.pc.running → proc.pc ≠ .printf → Turns proc (proc.goto (.exited 1)) [] []
  | kill : proc.pc.running → Turns proc (proc.goto .killed) [] []
  | msgget {q : ℕ} : proc.pc = .msgget → Turns proc (proc.opened q) [] []
  | fgets : proc.pc = .fgets → Turns proc proc.read [] []
  | msgsnd : proc.pc = .msgsnd → Turns proc proc.posted [proc.msg] []
  | msgrcv {msg : List UInt8} : proc.pc = .msgrcv → Turns proc (proc.received msg) [] [msg]
  | printf : proc.pc = .printf → Turns proc proc.print [] []
  | msgctl : proc.pc = .msgctl → Turns proc (proc.goto (.exited 0)) [] []

/-- A step of a process, seen from that process and from the others. -/
lemma Turn.turns (h : Turn s p s') : ∃ proc out inn, Turns (s.procs p) proc out inn ∧
    s'.procs = Function.update s.procs p proc ∧
    (∀ r, ofProc s'.sent r = ofProc s.sent r ++ if p = r then out else []) ∧
    ∀ r, ofProc s'.taken r = ofProc s.taken r ++ if p = r then inn else [] := by
  have hnone : ∀ (log : List (Entry P)) (r : P),
      ofProc log r = ofProc log r ++ if p = r then [] else [] := by simp
  cases h with
  | fail hpc hprintf => exact ⟨_, [], [], .fail hpc hprintf, rfl, hnone _, hnone _⟩
  | kill hpc => exact ⟨_, [], [], .kill hpc, rfl, hnone _, hnone _⟩
  | msgget hpc =>
    unfold State.msgget
    cases s.key with
    | some q => exact ⟨_, [], [], .msgget hpc, rfl, hnone _, hnone _⟩
    | none => exact ⟨_, [], [], .msgget hpc, rfl, hnone _, hnone _⟩
  | fgets hpc => exact ⟨_, [], [], .fgets hpc, rfl, hnone _, hnone _⟩
  | msgsnd hpc hkey => exact ⟨_, _, [], .msgsnd hpc, rfl, ofProc_concat _ _, hnone _⟩
  | msgrcv hpc hkey hcontent => exact ⟨_, [], _, .msgrcv hpc, rfl, hnone _, ofProc_concat _ _⟩
  | printf hpc => exact ⟨_, [], [], .printf hpc, rfl, hnone _, hnone _⟩
  | msgctl hpc => exact ⟨_, [], [], .msgctl hpc, rfl, hnone _, hnone _⟩

/-- The run lemma for one process: what its own steps keep holds of it in every run of all. -/
lemma process_invariant {J : P → Proc → List (List UInt8) → List (List UInt8) → Prop}
    (hstart : ∀ p, J p (args p).proc [] [])
    (hturns : ∀ p proc proc' sent taken out inn, J p proc sent taken →
      Turns proc proc' out inn → J p proc' (sent ++ out) (taken ++ inn))
    (h : (system msg_qbytes args).Reachable s) (p : P) :
    J p (s.procs p) (ofProc s.sent p) (ofProc s.taken p) := by
  have hall : ∀ p, J p (s.procs p) (ofProc s.sent p) (ofProc s.taken p) := by
    refine h.invariant (I := fun s => ∀ p, J p (s.procs p) (ofProc s.sent p) (ofProc s.taken p))
      ?_ fun s a s' hI _ hs => ?_
    · rintro s rfl
      exact hstart
    · intro r
      obtain ⟨p, ht⟩ := turn_of_step hs
      obtain ⟨proc, out, inn, hturn, hprocs, hsent, htaken⟩ := ht.turns
      rw [hprocs, hsent, htaken]
      by_cases hr : p = r
      · subst hr
        rw [Function.update_self, if_pos rfl, if_pos rfl]
        exact hturns p _ _ _ _ _ _ (hI p) hturn
      · rw [Function.update_of_ne (Ne.symm hr), if_neg hr, if_neg hr, List.append_nil,
          List.append_nil]
        exact hI r
  exact hall p

end Processes

section Programs

/-- A program makes its own calls only. -/
def Fits (arg : Arg) (proc : Proc) : Prop :=
  proc.program = arg.program ∧
  match proc.pc with
  | .fgets => proc.program = .msg_snd
  | .msgsnd => proc.program = .msg_snd ∨ proc.program = .msg_send1
  | .msgrcv | .printf | .msgctl => proc.program = .msg_rcv ∨ proc.program = .msg_rcv2
  | _ => True

variable {arg : Arg} {proc proc' : Proc} {sent taken out inn : List (List UInt8)}

lemma Fits.turns (h : Fits arg proc) (ht : Turns proc proc' out inn) : Fits arg proc' := by
  obtain ⟨hprogram, hpc⟩ := h
  refine ⟨?_, ?_⟩
  · cases ht <;> exact hprogram
  · cases ht with
    | fail | kill | msgctl => trivial
    | msgget hget =>
      rcases proc.opened_pc _ with ⟨hp, hnext⟩ | ⟨hp, hnext⟩ | ⟨hp, hnext⟩
      · rw [hnext]
        exact hp
      · rw [hnext]
        exact .inr hp
      · rw [hnext]
        exact hp
    | fgets hget =>
      rw [hget] at hpc
      exact .inl hpc
    | msgsnd hsnd =>
      rcases proc.posted_pc with ⟨hnext, -⟩ | ⟨hnext, hp, -⟩
      · rw [hnext]
        trivial
      · rw [hnext]
        exact hp
    | msgrcv hrcv =>
      rw [hrcv] at hpc
      exact hpc
    | printf hprintf =>
      rw [hprintf] at hpc
      rcases proc.print_pc with ⟨hnext, -⟩ | ⟨hnext, hp, -⟩
      · rw [hnext]
        exact hpc
      · rw [hnext]
        exact .inl hp

/-- What is printed is what was received. -/
structure Prints (proc : Proc) (taken : List (List UInt8)) : Prop where
  start : proc.printed <+: taken.map Checked.string
  next : proc.pc = .printf → taken.map Checked.string = proc.printed ++ [Checked.string proc.msg]
  all : proc.pc ≠ .printf → proc.pc ≠ .killed → taken.map Checked.string = proc.printed

/-- A step that prints nothing and receives nothing. -/
lemma Prints.frame (h : Prints proc taken) (hprinted : proc'.printed = proc.printed)
    (hpc : proc.pc.running) (hprintf : proc.pc ≠ .printf) (hnext : proc'.pc ≠ .printf) :
    Prints proc' taken := by
  have hkilled : proc.pc ≠ .killed := by
    intro hk
    rw [hk] at hpc
    cases hpc
  refine ⟨?_, fun hp => absurd hp hnext, fun _ _ => ?_⟩
  · rw [hprinted]
    exact h.start
  · rw [hprinted]
    exact h.all hprintf hkilled

lemma Prints.turns (h : Prints proc taken) (ht : Turns proc proc' out inn) :
    Prints proc' (taken ++ inn) := by
  cases ht with
  | kill hpc =>
    rw [List.append_nil]
    exact ⟨h.start, fun hp => (by cases hp), fun _ hk => absurd rfl hk⟩
  | @msgrcv msg hpc =>
    have hall := h.all (by simp [hpc]) (by simp [hpc])
    have hnext : (taken ++ [msg]).map Checked.string = proc.printed ++ [Checked.string msg] := by
      rw [List.map_append, hall, List.map_singleton]
    refine ⟨?_, fun _ => hnext, fun hp => absurd rfl hp⟩
    rw [hnext]
    exact List.prefix_append _ _
  | printf hpc =>
    have hnext := h.next hpc
    rw [List.append_nil]
    refine ⟨hnext ▸ List.prefix_rfl, fun hp => ?_, fun _ _ => hnext⟩
    rcases proc.print_pc with ⟨hgo, -⟩ | ⟨hgo, -⟩ <;> rw [hgo] at hp <;> cases hp
  | fail hpc hprintf =>
    rw [List.append_nil]
    exact h.frame rfl hpc hprintf (by simp [Proc.goto])
  | msgget hpc =>
    rw [List.append_nil]
    refine h.frame rfl (by rw [hpc]; rfl) (by simp [hpc]) fun hp => ?_
    rcases proc.opened_pc _ with ⟨-, hgo⟩ | ⟨-, hgo⟩ | ⟨-, hgo⟩ <;> rw [hgo] at hp <;> cases hp
  | msgsnd hpc =>
    rw [List.append_nil]
    refine h.frame rfl (by rw [hpc]; rfl) (by simp [hpc]) fun hp => ?_
    rcases proc.posted_pc with ⟨hgo, -⟩ | ⟨hgo, -⟩ <;> rw [hgo] at hp <;> cases hp
  | fgets hpc | msgctl hpc =>
    rw [List.append_nil]
    exact h.frame rfl (by rw [hpc]; rfl) (by simp [hpc]) (by simp [Proc.goto, Proc.read])

/-- What `msg_snd` sends: the texts of its turns, up to one that says that it ends. -/
structure Sends (arg : Arg) (proc : Proc) (sent : List (List UInt8)) : Prop where
  texts : sent = (List.range sent.length).map arg.text
  early : ∀ k, k + 1 < sent.length → isExit (arg.text k) = false
  loop : proc.pc = .msgget ∨ proc.pc = .fgets → (proc.msg, proc.stdin) =
    (fgets MSG_SIZE)^[sent.length] (arg.garbage, arg.stdin) ∧
    ∀ k < sent.length, isExit (arg.text k) = false
  full : proc.pc = .msgsnd → (proc.msg, proc.stdin) =
    (fgets MSG_SIZE)^[sent.length + 1] (arg.garbage, arg.stdin) ∧
    ∀ k < sent.length, isExit (arg.text k) = false
  done : proc.pc = .exited 0 → ∃ n, sent.length = n + 1 ∧ isExit (arg.text n)

lemma Sends.frame (h : Sends arg proc sent) (hloop : proc'.pc ≠ .msgget ∧ proc'.pc ≠ .fgets)
    (hfull : proc'.pc ≠ .msgsnd) (hdone : proc'.pc ≠ .exited 0) : Sends arg proc' sent :=
  ⟨h.texts, h.early, fun hp => (hp.elim hloop.1 hloop.2).elim, fun hp => absurd hp hfull,
    fun hp => absurd hp hdone⟩

/-- The text that is sent next is that of the next turn. -/
lemma Sends.post (h : Sends arg proc sent) (hpc : proc.pc = .msgsnd)
    (hprogram : proc.program = .msg_snd) : Sends arg proc.posted (sent ++ [proc.msg]) := by
  obtain ⟨hread, hearly⟩ := h.full hpc
  have hmsg : proc.msg = arg.text sent.length := congrArg Prod.fst hread
  have hlength : (sent ++ [proc.msg]).length = sent.length + 1 := by simp
  have htexts : sent ++ [proc.msg] =
      (List.range (sent ++ [proc.msg]).length).map arg.text := by
    rw [hlength, List.range_succ, List.map_append, ← h.texts, hmsg, List.map_singleton]
  rcases proc.posted_pc with ⟨hgo, hexit⟩ | ⟨hgo, -, hexit⟩
  · refine ⟨htexts, ?_, fun hp => ?_, fun hp => ?_, fun _ => ?_⟩
    · intro k hk
      exact hearly k (by omega)
    · rcases hp with hp | hp <;> rw [hgo] at hp <;> cases hp
    · rw [hgo] at hp
      cases hp
    · exact ⟨sent.length, hlength, hmsg ▸ hexit hprogram⟩
  · have hall : ∀ k < (sent ++ [proc.msg]).length, isExit (arg.text k) = false := by
      intro k hk
      rcases Nat.lt_or_ge k sent.length with hlt | hge
      · exact hearly k hlt
      · obtain rfl : k = sent.length := by omega
        exact hmsg ▸ hexit
    refine ⟨htexts, fun k hk => hall k (by omega), fun _ => ⟨?_, hall⟩, fun hp => ?_, fun hp => ?_⟩
    · rw [hlength]
      exact hread
    · rw [hgo] at hp
      cases hp
    · rw [hgo] at hp
      cases hp

lemma Sends.turns (hfits : Fits arg proc) (hsnd : arg.program = .msg_snd)
    (h : Sends arg proc sent) (ht : Turns proc proc' out inn) :
    Sends arg proc' (sent ++ out) := by
  obtain ⟨hprogram, hcalls⟩ := hfits
  rw [hsnd] at hprogram
  rw [hprogram] at hcalls
  cases ht with
  | fail | kill =>
    rw [List.append_nil]
    exact h.frame (by simp [Proc.goto]) (by simp [Proc.goto]) (by simp [Proc.goto])
  | msgget hpc =>
    obtain ⟨hread, hearly⟩ := h.loop (.inl hpc)
    have hgo : ∀ q, proc.opened q = { proc with pc := .fgets, msgid := some q } := by
      intro q
      unfold Proc.opened
      rw [hprogram]
    rw [List.append_nil, hgo]
    exact ⟨h.texts, h.early, fun _ => ⟨hread, hearly⟩, fun hp => (by cases hp),
      fun hp => by cases hp⟩
  | fgets hpc =>
    obtain ⟨hread, hearly⟩ := h.loop (.inr hpc)
    rw [List.append_nil]
    refine ⟨h.texts, h.early, fun hp => ?_, fun _ => ⟨?_, hearly⟩, fun hp => by cases hp⟩
    · rcases hp with hp | hp <;> cases hp
    · rw [Function.iterate_succ_apply', ← hread]
      rfl
  | msgsnd hpc => exact h.post hpc hprogram
  | msgrcv hpc | printf hpc | msgctl hpc =>
    rw [hpc] at hcalls
    rcases hcalls with hp | hp <;> cases hp

/-- What `msg_rcv` receives: messages up to one that says that it ends. -/
structure Receives (proc : Proc) (taken : List (List UInt8)) : Prop where
  early : ∀ msg ∈ taken.dropLast, isExit msg = false
  loop : proc.pc = .msgget ∨ proc.pc = .msgrcv → ∀ msg ∈ taken, isExit msg = false
  next : proc.pc = .printf → taken.getLast? = some proc.msg
  done : proc.pc = .msgctl ∨ proc.pc = .exited 0 →
    ∃ msg, taken.getLast? = some msg ∧ isExit msg

lemma Receives.frame (h : Receives proc taken)
    (hloop : proc'.pc ≠ .msgget ∧ proc'.pc ≠ .msgrcv) (hnext : proc'.pc ≠ .printf)
    (hdone : proc'.pc ≠ .msgctl ∧ proc'.pc ≠ .exited 0) : Receives proc' taken :=
  ⟨h.early, fun hp => (hp.elim hloop.1 hloop.2).elim, fun hp => absurd hp hnext,
    fun hp => (hp.elim hdone.1 hdone.2).elim⟩

lemma Receives.turns (hfits : Fits arg proc) (hrcv : arg.program = .msg_rcv)
    (h : Receives proc taken) (ht : Turns proc proc' out inn) :
    Receives proc' (taken ++ inn) := by
  obtain ⟨hprogram, hcalls⟩ := hfits
  rw [hrcv] at hprogram
  rw [hprogram] at hcalls
  cases ht with
  | fail | kill =>
    rw [List.append_nil]
    exact h.frame (by simp [Proc.goto]) (by simp [Proc.goto]) (by simp [Proc.goto])
  | msgget hpc =>
    have hall := h.loop (.inl hpc)
    have hgo : ∀ q, (proc.opened q).pc = .msgrcv := by
      intro q
      unfold Proc.opened
      rw [hprogram]
    rw [List.append_nil]
    refine ⟨h.early, fun _ => hall, fun hp => ?_, fun hp => ?_⟩
    · rw [hgo] at hp
      cases hp
    · rcases hp with hp | hp <;> rw [hgo] at hp <;> cases hp
  | @msgrcv msg hpc =>
    have hall := h.loop (.inr hpc)
    refine ⟨?_, fun hp => ?_, fun _ => ?_, fun hp => ?_⟩
    · rw [List.dropLast_concat]
      exact hall
    · rcases hp with hp | hp <;> cases hp
    · exact List.getLast?_concat ..
    · rcases hp with hp | hp <;> cases hp
  | printf hpc =>
    have hlast := h.next hpc
    rw [List.append_nil]
    rcases proc.print_pc with ⟨hgo, hexit⟩ | ⟨hgo, -, hexit⟩
    · refine ⟨h.early, fun hp => ?_, fun hp => ?_, fun _ => ⟨_, hlast, hexit hprogram⟩⟩
      · rcases hp with hp | hp <;> rw [hgo] at hp <;> cases hp
      · rw [hgo] at hp
        cases hp
    · refine ⟨h.early, fun _ => ?_, fun hp => ?_, fun hp => ?_⟩
      · intro msg hmsg
        rw [← List.dropLast_append_getLast? _ hlast, List.mem_append, List.mem_singleton] at hmsg
        rcases hmsg with hmsg | rfl
        · exact h.early msg hmsg
        · exact hexit
      · rw [hgo] at hp
        cases hp
      · rcases hp with hp | hp <;> rw [hgo] at hp <;> cases hp
  | msgctl hpc =>
    rw [List.append_nil]
    refine ⟨h.early, fun hp => ?_, fun hp => (by cases hp), fun _ => h.done (.inl hpc)⟩
    rcases hp with hp | hp <;> cases hp
  | fgets hpc | msgsnd hpc =>
    rw [hpc] at hcalls
    simp at hcalls

end Programs

/-- What holds of each process in every run. -/
structure Does (arg : Arg) (proc : Proc) (sent taken : List (List UInt8)) : Prop where
  fits : Fits arg proc
  prints : Prints proc taken
  sends : arg.program = .msg_snd → Sends arg proc sent
  receives : arg.program = .msg_rcv → Receives proc taken

lemma does_start (arg : Arg) : Does arg arg.proc [] [] := by
  refine ⟨⟨rfl, trivial⟩, ⟨List.prefix_rfl, fun hp => (by cases hp), fun _ _ => rfl⟩, fun _ => ?_,
    fun _ => ?_⟩
  · refine ⟨rfl, ?_, fun _ => ⟨rfl, ?_⟩, fun hp => (by cases hp), fun hp => by cases hp⟩
    · intro k hk
      cases hk
    · intro k hk
      cases hk
  · refine ⟨?_, fun _ => ?_, fun hp => (by cases hp), fun hp => ?_⟩
    · intro msg hmsg
      cases hmsg
    · intro msg hmsg
      cases hmsg
    · rcases hp with hp | hp <;> cases hp

lemma does_of_reachable (h : (system msg_qbytes args).Reachable s) (p : P) :
    Does (args p) (s.procs p) (ofProc s.sent p) (ofProc s.taken p) := by
  refine process_invariant (J := fun p => Does (args p)) (fun p => does_start _) ?_ h p
  intro p proc proc' sent taken out inn hdoes ht
  exact ⟨hdoes.fits.turns ht, hdoes.prints.turns ht,
    fun hsnd => (hdoes.sends hsnd).turns hdoes.fits hsnd ht,
    fun hrcv => (hdoes.receives hrcv).turns hdoes.fits hrcv ht⟩

/-- In every run of any processes: a start of what was sent to a queue was received, by
whoever it was, and the rest waits in the queue as long as it exists. A process prints what
it received, in order. `msg_snd` sends the texts of its turns one after another, none after
a text that starts with `exit`, and `msg_rcv` receives nothing after such a text. They end
well only with it. -/
theorem messages_in_order (msg_qbytes : ℕ) (args : P → Arg) {s : State P}
    (h : (system msg_qbytes args).Reachable s) :
    (∀ q, onQueue s.taken q <+: onQueue s.sent q ∧
      (s.key = some q → onQueue s.sent q = onQueue s.taken q ++ s.content)) ∧
    ∀ p, (s.procs p).printed <+: (ofProc s.taken p).map Checked.string ∧
      ((s.procs p).pc = .exited 0 →
        (s.procs p).printed = (ofProc s.taken p).map Checked.string) ∧
      ((args p).program = .msg_snd → ∃ n, ofProc s.sent p = (List.range n).map (args p).text ∧
        (∀ k, k + 1 < n → isExit ((args p).text k) = false) ∧
        ((s.procs p).pc = .exited 0 → ∃ k, n = k + 1 ∧ isExit ((args p).text k))) ∧
      ((args p).program = .msg_rcv →
        (∀ msg ∈ (ofProc s.taken p).dropLast, isExit msg = false) ∧
        ((s.procs p).pc = .exited 0 →
          ∃ msg, (ofProc s.taken p).getLast? = some msg ∧ isExit msg)) := by
  have hqueued := queued_of_reachable h
  refine ⟨fun q => ⟨hqueued.start q, fun hq => (hqueued.current q hq).2⟩, fun p => ?_⟩
  have hdoes := does_of_reachable h p
  refine ⟨hdoes.prints.start, fun hpc => ?_, fun hsnd => ?_, fun hrcv => ?_⟩
  · exact (hdoes.prints.all (by simp [hpc]) (by simp [hpc])).symm
  · have hsends := hdoes.sends hsnd
    exact ⟨_, hsends.texts, hsends.early, hsends.done⟩
  · have hreceives := hdoes.receives hrcv
    exact ⟨hreceives.early, fun hpc => hreceives.done (.inr hpc)⟩

/-- Two senders and a receiver; the second sender does not stop. -/
def threeArgs : ℕ → Arg
  | 0 => ⟨.msg_snd, List.replicate 80 0, utf8 "one\nexit\n"⟩
  | 1 => ⟨.msg_snd, List.replicate 80 0, utf8 "two\n"⟩
  | _ => ⟨.msg_rcv, List.replicate 80 0, []⟩

/-- The receiver removes the queue while the second sender still uses it. -/
def threeRun : List (Act ℕ) :=
  [.msgget 1 true, .msgget 0 true, .fgets 0, .fgets 1, .msgsnd 1 true, .msgsnd 0 true,
    .msgget 2 true, .msgrcv 2 true, .fgets 0, .printf 2, .msgsnd 0 true, .msgrcv 2 true,
    .printf 2, .msgrcv 2 true, .fgets 1, .msgsnd 1 true, .printf 2, .msgctl 2 true,
    .fgets 1, .msgsnd 1 false]

theorem messages_in_order_three :
    ∃ s, (system 16384 threeArgs).exec (start threeArgs) threeRun = some s ∧
      (s.procs 2).printed = (ofProc s.taken 2).map Checked.string := by
  have hrun : ((system 16384 threeArgs).exec (start threeArgs) threeRun).map
      (fun s => (s.procs 2).pc) = some (.exited 0) := by
    decide +kernel
  obtain ⟨s, hs, hpc⟩ := Option.map_eq_some_iff.mp hrun
  have hreach : (system 16384 threeArgs).Reachable s :=
    System.Reach.exec (.init rfl) (fun _ _ _ => trivial) hs
  exact ⟨s, hs, ((messages_in_order 16384 threeArgs hreach).2 2).2.1 hpc⟩

end ShareBike.MessageQueue
