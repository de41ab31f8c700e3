import ShareBike.CommTable
import ShareBike.Echo
import Mathlib.Data.Nat.Basic

/-!
# The handler table of the echo server

The entry of an open client has a handler for the direction that is registered,
and all its data pointers are the `ConnectStat` of the connection; every other
entry is zero. Four handlers, the timeout scan and `comm_close` keep this, so no
handler is ever given a `ConnectStat` that was freed.
-/
namespace ShareBike.Echo
open ShareBike.Lib ShareBike.Comm

/-- The entry of the open connection `k`, registered with the mask `ev`. -/
structure ClientOk (f : Fde Handler ℕ) (ev : Events) (k : ℕ) : Prop where
  read : (f.readHandler = none ∧ f.readData = none) ∨
    (f.readHandler = some .doEchoHandler ∧ f.readData = some k)
  write : (f.writeHandler = some .doWelcomeHandler ∨ f.writeHandler = some .doEchoResponse) ∧
    f.writeData = some k
  timeout : f.timeout ≠ 0 ∧ f.timeoutHandler = some .doEchoTimeout ∧ f.timeoutData = some k
  mask : (ev = .wanted true false ∧ f.readHandler = some .doEchoHandler) ∨
    ev = .wanted false true

/-- Nothing is done with an allocation once it was freed. -/
def LogOk : List Event → Prop
  | [] => True
  | .call _ _ data :: t => (∀ id ∈ data, Event.free id ∉ t) ∧ LogOk t
  | .free id :: t => Event.free id ∉ t ∧ LogOk t

/-- The invariant, on the handler table, `epoll_state`, the open descriptors and
the application, with the listening socket `l`. -/
structure Inv (l : ℕ) (t : ℕ → Fde Handler ℕ) (e : ℕ → Events) (o : ℕ → Bool) (a : App) :
    Prop where
  listening : t l = ⟨some .acceptConnection, some 0, none, none, none, 0, none⟩
  listen_open : o l = true
  listen_conn : a.conn l = none
  zero_open : o 0 = true
  zero_conn : a.conn 0 = none
  closed : ∀ fd, fd ≠ l → o fd = false ∨ a.conn fd = none → t fd = .zero ∧ e fd = .zero
  client : ∀ fd k, o fd = true → a.conn fd = some k →
    ClientOk (t fd) (e fd) k ∧ (a.stats k).isSome ∧ k ≠ 0
  inj : ∀ fd fd' k, o fd = true → o fd' = true → a.conn fd = some k → a.conn fd' = some k →
    fd = fd'
  bound : ∀ k, a.nextStat ≤ k → a.stats k = none
  pos : 0 < a.nextStat
  listen_stat : (a.stats 0).isSome
  log : LogOk a.log
  freed : ∀ id, Event.free id ∈ a.log → a.stats id = none ∧ id < a.nextStat

/-- The invariant of a server. -/
abbrev Inv.Of (l : ℕ) (s : EchoServer) : Prop :=
  Inv l s.comm.fdTable s.comm.epollState s.comm.isOpen s.app

variable {l fd k : ℕ} {t : ℕ → Fde Handler ℕ} {e : ℕ → Events} {o : ℕ → Bool} {a a' : App}
  {s : EchoServer} {sys : Sys}

lemma Inv.ne_listen (h : Inv l t e o a) (hc : a.conn fd = some k) : fd ≠ l := by
  rintro rfl
  rw [h.listen_conn] at hc
  cases hc

/-- Only the listening socket and the open clients have an entry. -/
lemma Inv.entry (h : Inv l t e o a) (fd : ℕ) (hne : t fd ≠ .zero) :
    fd = l ∨ ∃ k, o fd = true ∧ a.conn fd = some k := by
  by_cases hl : fd = l
  · exact .inl hl
  · have ho : o fd = true := by
      by_contra hno
      exact hne (h.closed fd hl (.inl (Bool.not_eq_true _ ▸ hno))).1
    cases hc : a.conn fd with
    | none => exact absurd (h.closed fd hl (.inr hc)).1 hne
    | some k => exact .inr ⟨k, ho, rfl⟩

/-- A client gets another entry and another mask. -/
lemma Inv.setClient (h : Inv l t e o a) (ho : o fd = true) (hc : a.conn fd = some k)
    {f : Fde Handler ℕ} {ev : Events} (hf : ClientOk f ev k) :
    Inv l (Function.update t fd f) (Function.update e fd ev) o a := by
  have hne := h.ne_listen hc
  refine { h with listening := ?_, closed := ?_, client := ?_ }
  · rw [Function.update_of_ne hne.symm]
    exact h.listening
  · intro g hg hog
    have hgf : g ≠ fd := by
      rintro rfl
      rcases hog with hog | hog
      · rw [ho] at hog
        cases hog
      · rw [hc] at hog
        cases hog
    rw [Function.update_of_ne hgf, Function.update_of_ne hgf]
    exact h.closed g hg hog
  · intro g j hog hcg
    by_cases hgf : g = fd
    · subst hgf
      rw [hc] at hcg
      cases hcg
      rw [Function.update_self, Function.update_self]
      exact ⟨hf, (h.client g k ho hc).2⟩
    · rw [Function.update_of_ne hgf, Function.update_of_ne hgf]
      exact h.client g j hog hcg

/-- Buffers and the records of what was read and written do not matter. -/
lemma Inv.setApp (h : Inv l t e o a) (hstats : ∀ j, (a'.stats j).isSome = (a.stats j).isSome)
    (hnext : a'.nextStat = a.nextStat) (hconn : a'.conn = a.conn) (hlog : a'.log = a.log) :
    Inv l t e o a' := by
  have hnone : ∀ j, a.stats j = none → a'.stats j = none := by
    intro j hj
    have hs := hstats j
    rw [hj, Option.isSome_none] at hs
    exact Option.not_isSome_iff_eq_none.mp (by simp [hs])
  refine ⟨h.listening, h.listen_open, ?_, h.zero_open, ?_, ?_, ?_, ?_, ?_, ?_, ?_, ?_, ?_⟩
  · exact hconn ▸ h.listen_conn
  · exact hconn ▸ h.zero_conn
  · rw [hconn]
    exact h.closed
  · intro g j hog hcg
    rw [hconn] at hcg
    rw [hstats]
    exact h.client g j hog hcg
  · rw [hconn]
    exact h.inj
  · rw [hnext]
    exact fun j hj => hnone j (h.bound j hj)
  · exact hnext ▸ h.pos
  · rw [hstats]
    exact h.listen_stat
  · exact hlog ▸ h.log
  · rw [hlog, hnext]
    exact fun j hj => ⟨hnone j (h.freed j hj).1, (h.freed j hj).2⟩

/-- A handler is called with a live allocation. -/
lemma Inv.call (h : Inv l t e o a) (hdl : Handler) (fd : ℕ) (hk : (a.stats k).isSome) :
    Inv l t e o { a with log := .call hdl fd (some k) :: a.log } := by
  refine { h with log := ⟨?_, h.log⟩, freed := ?_ }
  · intro id hid hm
    cases hid
    rw [(h.freed k hm).1] at hk
    cases hk
  · intro id hid
    rcases List.mem_cons.mp hid with hid | hid
    · cases hid
    · exact h.freed id hid

/-- A client is closed and its allocation freed. -/
lemma Inv.closeClient (h : Inv l t e o a) (ho : o fd = true) (hc : a.conn fd = some k) :
    Inv l (Function.update t fd .zero) (Function.update e fd .zero) (Function.update o fd false)
      { a with stats := Function.update a.stats k none, log := .free k :: a.log } := by
  have hne := h.ne_listen hc
  obtain ⟨-, hlive, hk0⟩ := h.client fd k ho hc
  have hnotfreed : Event.free k ∉ a.log := by
    intro hm
    rw [(h.freed k hm).1] at hlive
    cases hlive
  have hkn : k < a.nextStat := by
    by_contra hge
    rw [h.bound k (Nat.not_lt.mp hge)] at hlive
    cases hlive
  have hother : ∀ g, Function.update o fd false g = true → g ≠ fd ∧ o g = true := by
    intro g hg
    by_cases hgf : g = fd
    · rw [hgf, Function.update_self] at hg
      cases hg
    · rw [Function.update_of_ne hgf] at hg
      exact ⟨hgf, hg⟩
  have hne0 : fd ≠ 0 := by
    rintro rfl
    rw [h.zero_conn] at hc
    cases hc
  refine ⟨?_, ?_, h.listen_conn, ?_, h.zero_conn, ?_, ?_, ?_, ?_, h.pos, ?_,
    ⟨hnotfreed, h.log⟩, ?_⟩
  · rw [Function.update_of_ne hne.symm]
    exact h.listening
  · rw [Function.update_of_ne hne.symm]
    exact h.listen_open
  · rw [Function.update_of_ne hne0.symm]
    exact h.zero_open
  · intro g hg hog
    by_cases hgf : g = fd
    · rw [hgf, Function.update_self, Function.update_self]
      exact ⟨rfl, rfl⟩
    · rw [Function.update_of_ne hgf] at hog ⊢
      rw [Function.update_of_ne hgf]
      exact h.closed g hg hog
  · intro g j hog hcg
    obtain ⟨hgf, hog⟩ := hother g hog
    obtain ⟨hok, hlive', hj0⟩ := h.client g j hog hcg
    have hjk : j ≠ k := by
      rintro rfl
      exact hgf (h.inj g fd j hog ho hcg hc)
    rw [Function.update_of_ne hgf, Function.update_of_ne hgf]
    refine ⟨hok, ?_, hj0⟩
    change (Function.update a.stats k none j).isSome = true
    rw [Function.update_of_ne hjk]
    exact hlive'
  · intro g g' j hog hog' hcg hcg'
    exact h.inj g g' j (hother g hog).2 (hother g' hog').2 hcg hcg'
  · intro j hj
    by_cases hjk : j = k
    · exact hjk ▸ Function.update_self _ _ _
    · exact (Function.update_of_ne hjk _ _).trans (h.bound j hj)
  · exact (congrArg Option.isSome (Function.update_of_ne hk0.symm _ _)).trans h.listen_stat
  · intro id hid
    rcases List.mem_cons.mp hid with hid | hid
    · cases hid
      exact ⟨Function.update_self _ _ _, hkn⟩
    · refine ⟨?_, (h.freed id hid).2⟩
      by_cases hidk : id = k
      · exact hidk ▸ Function.update_self _ _ _
      · exact (Function.update_of_ne hidk _ _).trans (h.freed id hid).1

/-- A new connection gets the next allocation and a fresh entry. -/
lemma Inv.accept (h : Inv l t e o a) {newFd : ℕ} (hnew : o newFd = false) {f : Fde Handler ℕ}
    {ev : Events} (hf : ClientOk f ev a.nextStat) (stat : ConnectStat) :
    Inv l (Function.update t newFd f) (Function.update e newFd ev)
      (Function.update o newFd true)
      { a with
        stats := Function.update a.stats a.nextStat (some stat)
        nextStat := a.nextStat + 1
        conn := Function.update a.conn newFd (some a.nextStat) } := by
  have hne : newFd ≠ l := by
    rintro rfl
    rw [h.listen_open] at hnew
    cases hnew
  have hold : ∀ j, (a.stats j).isSome →
      (Function.update a.stats a.nextStat (some stat) j).isSome := by
    intro j hj
    by_cases hjn : j = a.nextStat
    · rw [hjn, Function.update_self]
      rfl
    · rwa [Function.update_of_ne hjn]
  have hlt : ∀ g j, o g = true → a.conn g = some j → j ≠ a.nextStat := by
    rintro g j hog hcg rfl
    have hlive := (h.client g _ hog hcg).2.1
    rw [h.bound _ le_rfl] at hlive
    cases hlive
  have hconn : ∀ g j, Function.update o newFd true g = true →
      Function.update a.conn newFd (some a.nextStat) g = some j →
      (g = newFd ∧ j = a.nextStat) ∨ (g ≠ newFd ∧ o g = true ∧ a.conn g = some j) := by
    intro g j hog hcg
    by_cases hg : g = newFd
    · rw [hg, Function.update_self] at hcg
      exact .inl ⟨hg, (Option.some.inj hcg).symm⟩
    · rw [Function.update_of_ne hg] at hog hcg
      exact .inr ⟨hg, hog, hcg⟩
  have hne0 : newFd ≠ 0 := by
    rintro rfl
    rw [h.zero_open] at hnew
    cases hnew
  refine ⟨?_, ?_, ?_, ?_, ?_, ?_, ?_, ?_, ?_, Nat.succ_pos _, hold 0 h.listen_stat, h.log, ?_⟩
  · rw [Function.update_of_ne hne.symm]
    exact h.listening
  · rw [Function.update_of_ne hne.symm]
    exact h.listen_open
  · exact (Function.update_of_ne hne.symm _ _).trans h.listen_conn
  · rw [Function.update_of_ne hne0.symm]
    exact h.zero_open
  · exact (Function.update_of_ne hne0.symm _ _).trans h.zero_conn
  · intro g hg hog
    by_cases hgf : g = newFd
    · subst hgf
      rw [Function.update_self] at hog
      rcases hog with hog | hog
      · cases hog
      · exact absurd ((Function.update_self _ _ _).symm.trans hog) (by simp)
    · rw [Function.update_of_ne hgf] at hog
      rw [Function.update_of_ne hgf, Function.update_of_ne hgf]
      exact h.closed g hg (hog.imp id fun hc => (Function.update_of_ne hgf _ _).symm.trans hc)
  · intro g j hog hcg
    rcases hconn g j hog hcg with ⟨rfl, rfl⟩ | ⟨hg, hog, hcg⟩
    · rw [Function.update_self, Function.update_self]
      refine ⟨hf, ?_, Nat.ne_of_gt h.pos⟩
      change (Function.update a.stats a.nextStat (some stat) a.nextStat).isSome = true
      rw [Function.update_self]
      rfl
    · obtain ⟨hok, hlive, hj0⟩ := h.client g j hog hcg
      rw [Function.update_of_ne hg, Function.update_of_ne hg]
      exact ⟨hok, hold j hlive, hj0⟩
  · intro g g' j hog hog' hcg hcg'
    rcases hconn g j hog hcg with ⟨hg, hj⟩ | ⟨-, hog, hcg⟩ <;>
      rcases hconn g' j hog' hcg' with ⟨hg', hj'⟩ | ⟨-, hog', hcg'⟩
    · rw [hg, hg']
    · exact absurd hj (hlt g' j hog' hcg')
    · exact absurd hj' (hlt g j hog hcg)
    · exact h.inj g g' j hog hog' hcg hcg'
  · intro j hj
    have hjn : j ≠ a.nextStat := by
      rintro rfl
      exact Nat.not_succ_le_self _ hj
    exact (Function.update_of_ne hjn _ _).trans (h.bound j (Nat.le_of_succ_le hj))
  · intro id hid
    obtain ⟨hnone, hlt⟩ := h.freed id hid
    exact ⟨(Function.update_of_ne (Nat.ne_of_lt hlt) _ _).trans hnone, Nat.lt_succ_of_lt hlt⟩

/-- A `write` changes nothing but the record of the writes. -/
lemma Inv.sysWrite (h : Inv.Of l s) (sys : Sys) (fd : ℕ) (bytes : List UInt8) :
    Inv.Of l (sysWrite sys fd s bytes).2 := by
  simp only [Echo.sysWrite]
  split
  · exact h.setApp (fun _ => rfl) rfl rfl rfl
  · exact h

lemma sysWrite_comm (sys : Sys) (s : EchoServer) (fd : ℕ) (bytes : List UInt8) :
    (sysWrite sys fd s bytes).2.comm = s.comm := by
  simp only [sysWrite]
  split <;> rfl

lemma sysWrite_conn (sys : Sys) (s : EchoServer) (fd : ℕ) (bytes : List UInt8) :
    (sysWrite sys fd s bytes).2.app.conn = s.app.conn := by
  simp only [sysWrite]
  split <;> rfl

lemma Inv.setSendBuf (h : Inv.Of l s) {stat : ConnectStat} (hk : s.app.stats k = some stat)
    (buf : List UInt8) : Inv.Of l (setSendBuf s k stat buf) := by
  refine h.setApp (fun j => ?_) rfl rfl rfl
  simp only [Echo.setSendBuf]
  by_cases hj : j = k
  · rw [hj, Function.update_self, hk]
    rfl
  · rw [Function.update_of_ne hj]

lemma Inv.closeAndFree (h : Inv.Of l s) (ho : s.comm.isOpen fd = true)
    (hc : s.app.conn fd = some k) : Inv.Of l (closeAndFree fd (some k) s) := by
  simp only [Inv.Of, Echo.closeAndFree, Framework.commClose_fdTable,
    Framework.commClose_epollState, Framework.commClose_isOpen]
  exact h.closeClient ho hc

/-- The timeout of an entry that `commSetTimeout` armed is not zero. -/
lemma armed (c : Framework Handler ℕ) {n : ℤ} (hn : 0 < n) : (c.sysCurtime : ℤ) + n ≠ 0 := by
  omega

lemma doWelcomeHandler_inv (h : Inv.Of l s) (ho : s.comm.isOpen fd = true)
    (hc : s.app.conn fd = some k) : Inv.Of l (doWelcomeHandler sys fd (some k) s) := by
  have hw := h.sysWrite sys fd welcome
  have hok := (h.client fd k ho hc).1
  simp only [doWelcomeHandler]
  split
  · exact hw
  · rw [← sysWrite_conn sys s fd welcome] at hc
    simp only [Inv.Of, sysWrite_comm] at hw ⊢
    have ht : (0 : ℤ) ≤ 10 := by decide
    simp only [Framework.commUpdateReadHandler_commSetTimeout _ _ _ ht,
      Framework.commSetTimeout_epollState, Framework.commUpdateReadHandler_epollState,
      Framework.commSetTimeout_isOpen, Framework.commUpdateReadHandler_isOpen]
    exact hw.setClient ho hc
      ⟨.inr ⟨rfl, rfl⟩, hok.write, ⟨armed _ (by decide), rfl, rfl⟩, .inl ⟨rfl, rfl⟩⟩

lemma doEchoResponse_inv (h : Inv.Of l s) (ho : s.comm.isOpen fd = true)
    (hc : s.app.conn fd = some k) : Inv.Of l (doEchoResponse sys fd (some k) s) := by
  obtain ⟨hok, hlive, -⟩ := h.client fd k ho hc
  obtain ⟨stat, hstat⟩ := Option.isSome_iff_exists.mp hlive
  simp only [doEchoResponse, Option.bind_some, hstat]
  have hw := h.sysWrite sys fd (cstr stat.sendBuf)
  have hc' := hc
  rw [← sysWrite_conn sys s fd (cstr stat.sendBuf)] at hc'
  have ho' := ho
  rw [← sysWrite_comm sys s fd (cstr stat.sendBuf)] at ho'
  split
  · simp only [Inv.Of, sysWrite_comm] at hw ⊢
    have ht := Framework.commSetTimeout_fdTable s.comm fd (by decide : (0 : ℤ) ≤ 10)
      Handler.doEchoTimeout (some k)
    simp only [Framework.commUpdateReadHandler_fdTable, ht, Function.update_self,
      Function.update_idem, Framework.commUpdateReadHandler_epollState,
      Framework.commSetTimeout_epollState, Framework.commUpdateReadHandler_isOpen,
      Framework.commSetTimeout_isOpen]
    exact hw.setClient ho hc'
      ⟨.inr ⟨rfl, rfl⟩, hok.write, ⟨armed _ (by decide), rfl, rfl⟩, .inl ⟨rfl, rfl⟩⟩
  · split
    · exact hw.closeAndFree ho' hc'
    · exact hw

lemma doEchoHandler_inv (h : Inv.Of l s) (ho : s.comm.isOpen fd = true)
    (hc : s.app.conn fd = some k) : Inv.Of l (doEchoHandler sys fd (some k) s) := by
  obtain ⟨hok, hlive, -⟩ := h.client fd k ho hc
  obtain ⟨stat, hstat⟩ := Option.isSome_iff_exists.mp hlive
  have hbuf := h.setSendBuf hstat
  simp only [doEchoHandler, Option.bind_some, hstat, Option.map_some]
  split
  · split_ifs
    · exact (hbuf _).closeAndFree ho hc
    · -- the entry keeps its read handler and is registered for writing
      rename_i bytes _ _
      have hset := hbuf (overwrite (overwrite stat.sendBuf 0 arrow) arrow.length (bytes ++ [0]))
      have ht : (0 : ℤ) ≤ 10 := by decide
      have hnew := hset.setClient ho hc (f := { s.comm.fdTable fd with
          writeHandler := some .doEchoResponse, writeData := some k
          timeoutHandler := some .doEchoTimeout, timeoutData := some k
          timeout := ((s.comm.commUpdateWriteHandler fd (some .doEchoResponse) (some k)
            true).sysCurtime : ℤ) + 10 })
        ⟨hok.read, ⟨.inr rfl, rfl⟩, ⟨armed _ (by decide), rfl, rfl⟩, .inr rfl⟩
      simp only [Inv.Of, Echo.setSendBuf, Framework.commSetTimeout_epollState,
        Framework.commUpdateWriteHandler_epollState, Framework.commSetTimeout_isOpen,
        Framework.commUpdateWriteHandler_isOpen,
        Framework.commUpdateWriteHandler_commSetTimeout _ _ _ ht] at hnew ⊢
      exact hnew.setApp (fun _ => rfl) rfl rfl rfl
  · exact (hbuf _).closeAndFree ho hc
  · exact hbuf _

/-- A new descriptor is neither 0 nor the listening socket, and its entry is empty. -/
lemma Inv.accepted (h : Inv.Of l s) {newFd : ℕ} (hnew : s.comm.isOpen newFd = false) :
    0 < newFd ∧ s.comm.fdTable newFd = Fde.zero := by
  have hpos : 0 < newFd := by
    refine Nat.pos_of_ne_zero ?_
    rintro rfl
    rw [h.zero_open] at hnew
    cases hnew
  have hne : newFd ≠ l := by
    rintro rfl
    rw [h.listen_open] at hnew
    cases hnew
  exact ⟨hpos, (h.closed newFd hne (.inl hnew)).1⟩

lemma acceptConnection_inv (h : Inv.Of l s) (hacc : ∀ g ∈ sys.accept, s.comm.isOpen g = false) :
    Inv.Of l (acceptConnection sys s) := by
  simp only [acceptConnection]
  split
  · exact h
  · rename_i newFd he
    obtain ⟨hpos, hzero⟩ := h.accepted (hacc newFd he)
    have ht : (0 : ℤ) ≤ 30 := by decide
    rw [if_pos hpos]
    simp only [Inv.Of, Framework.commUpdateWriteHandler_commSetTimeout _ _ _ ht,
      Framework.commSetTimeout_epollState, Framework.commUpdateWriteHandler_epollState,
      Framework.commSetTimeout_isOpen, Framework.commUpdateWriteHandler_isOpen]
    refine h.accept (hacc newFd he)
      ⟨.inl ?_, ⟨.inl rfl, rfl⟩, ⟨armed _ (by decide), rfl, rfl⟩, .inr rfl⟩ _
    simp only [hzero]
    exact ⟨rfl, rfl⟩

/-- An entry with a read handler has that of the listening socket or of a client. -/
lemma Inv.reader (h : Inv.Of l s) {hdl : Handler}
    (hr : (s.comm.fdTable fd).readHandler = some hdl) :
    (fd = l ∧ hdl = .acceptConnection ∧ (s.comm.fdTable fd).readData = some 0) ∨
      ∃ k, s.comm.isOpen fd = true ∧ s.app.conn fd = some k ∧ hdl = .doEchoHandler ∧
        (s.comm.fdTable fd).readData = some k := by
  have hne : s.comm.fdTable fd ≠ .zero := by
    intro hz
    rw [hz] at hr
    cases hr
  rcases h.entry fd hne with rfl | ⟨k, ho, hc⟩
  · rw [h.listening] at hr ⊢
    cases hr
    exact .inl ⟨rfl, rfl, rfl⟩
  · rcases (h.client fd k ho hc).1.read with ⟨hn, -⟩ | ⟨hs, hd⟩
    · rw [hn] at hr
      cases hr
    · rw [hs] at hr
      cases hr
      exact .inr ⟨k, ho, hc, rfl, hd⟩

/-- An entry with a write handler is that of a client. -/
lemma Inv.writer (h : Inv.Of l s) {hdl : Handler}
    (hw : (s.comm.fdTable fd).writeHandler = some hdl) :
    ∃ k, s.comm.isOpen fd = true ∧ s.app.conn fd = some k ∧
      (hdl = .doWelcomeHandler ∨ hdl = .doEchoResponse) ∧
      (s.comm.fdTable fd).writeData = some k := by
  have hne : s.comm.fdTable fd ≠ .zero := by
    intro hz
    rw [hz] at hw
    cases hw
  rcases h.entry fd hne with rfl | ⟨k, ho, hc⟩
  · rw [h.listening] at hw
    cases hw
  · obtain ⟨hs, hd⟩ := (h.client fd k ho hc).1.write
    rw [hw, Option.some.injEq, Option.some.injEq] at hs
    exact ⟨k, ho, hc, hs, hd⟩

/-- The read handler of an entry is called with that entry's data. -/
lemma Inv.invokeRead (h : Inv.Of l s) (hacc : ∀ g ∈ sys.accept, s.comm.isOpen g = false)
    {hdl : Handler} (hr : (s.comm.fdTable fd).readHandler = some hdl) :
    Inv.Of l (invoke sys hdl fd (s.comm.fdTable fd).readData s) := by
  rcases h.reader hr with ⟨-, rfl, hd⟩ | ⟨k, ho, hc, rfl, hd⟩
  · rw [hd]
    exact acceptConnection_inv (h.call .acceptConnection fd h.listen_stat) hacc
  · rw [hd]
    exact doEchoHandler_inv (h.call .doEchoHandler fd (h.client fd k ho hc).2.1) ho hc

lemma Inv.invokeWrite (h : Inv.Of l s) {hdl : Handler}
    (hw : (s.comm.fdTable fd).writeHandler = some hdl) :
    Inv.Of l (invoke sys hdl fd (s.comm.fdTable fd).writeData s) := by
  obtain ⟨k, ho, hc, hs, hd⟩ := h.writer hw
  have hlive := (h.client fd k ho hc).2.1
  rw [hd]
  rcases hs with rfl | rfl
  · exact doWelcomeHandler_inv (h.call .doWelcomeHandler fd hlive) ho hc
  · exact doEchoResponse_inv (h.call .doEchoResponse fd hlive) ho hc

lemma Inv.callReadHandler (h : Inv.Of l s) (hacc : ∀ g ∈ sys.accept, s.comm.isOpen g = false)
    (fd : ℕ) (e : Events) : Inv.Of l (s.callReadHandler (invoke sys) fd e) := by
  rw [Server.callReadHandler]
  split
  · split_ifs
    · exact h.invokeRead hacc ‹_›
    · exact h
  · exact h

lemma Inv.callWriteHandler (h : Inv.Of l s) (fd : ℕ) (e : Events) :
    Inv.Of l (s.callWriteHandler (invoke sys) fd e) := by
  rw [Server.callWriteHandler]
  split
  · split_ifs
    · exact h.invokeWrite ‹_›
    · exact h
  · exact h

lemma Inv.dispatch (h : Inv.Of l s) (hacc : ∀ g ∈ sys.accept, s.comm.isOpen g = false)
    (fd : ℕ) (ev : Events) : Inv.Of l (s.dispatch (invoke sys) fd ev) := by
  have haccess : Inv.Of l (s.access fd) := h
  exact (haccess.callReadHandler hacc fd _).callWriteHandler fd _

/-- The timeout scan at one descriptor leaves it alone, or finds an expired
client and calls its timeout handler. -/
lemma Inv.checkTimeout_cases (h : Inv.Of l s) (sys : Sys) (fd : ℕ) :
    s.checkTimeout (invoke sys) fd = s.access fd ∨
      ∃ k, s.comm.isOpen fd = true ∧ s.app.conn fd = some k ∧
        (s.comm.fdTable fd).timeoutData = some k ∧
        s.checkTimeout (invoke sys) fd =
          invoke sys .doEchoTimeout fd (s.comm.fdTable fd).timeoutData { s with
            comm := (s.comm.access fd).setFde fd
              { s.comm.fdTable fd with timeoutHandler := none } } := by
  simp only [Server.checkTimeout]
  split_ifs with h0 hlate
  · exact .inl rfl
  · exact .inl rfl
  · have hne0 : (s.comm.fdTable fd).timeout ≠ 0 := h0
    rcases h.entry fd (fun hz => hne0 (by rw [hz]; rfl)) with rfl | ⟨k, ho, hc⟩
    · rw [h.listening] at hne0
      exact absurd rfl hne0
    · obtain ⟨-, hth, htd⟩ := (h.client fd k ho hc).1.timeout
      have hhandler : ((s.access fd).comm.fdTable fd).timeoutHandler = some .doEchoTimeout := hth
      refine .inr ⟨k, ho, hc, htd, ?_⟩
      rw [hhandler]
      rfl

/-- An expired client is closed and freed. -/
lemma Inv.checkTimeout (h : Inv.Of l s) (fd : ℕ) :
    Inv.Of l (s.checkTimeout (invoke sys) fd) := by
  rcases h.checkTimeout_cases sys fd with hsame | ⟨k, ho, hc, htd, hclosed⟩
  · rw [hsame]
    exact h
  · have hcall := h.call .doEchoTimeout fd (h.client fd k ho hc).2.1
    rw [hclosed, htd]
    simp only [Inv.Of, invoke, Echo.closeAndFree, Framework.commClose_fdTable,
      Framework.commClose_epollState, Framework.commClose_isOpen, Framework.setFde_fdTable,
      Framework.setFde_epollState, Framework.setFde_isOpen]
    have htable : Function.update (Function.update (s.comm.access fd).fdTable fd
        { s.comm.fdTable fd with timeoutHandler := none }) fd Fde.zero =
          Function.update s.comm.fdTable fd Fde.zero := Function.update_idem ..
    rw [htable]
    exact hcall.closeClient ho hc

lemma Inv.beforeWait (h : Inv.Of l s) (msec : ℤ) :
    Inv.Of l (s.beforeWait (invoke sys) msec).2 :=
  Server.beforeWait_invariant (P := fun s => Inv.Of l s) (fun _ fd hs => hs.checkTimeout fd)
    (fun _ _ hs => hs) h msec

lemma inv_start (maxFd listenSock clock : ℕ) :
    Inv.Of listenSock (start maxFd listenSock clock).server := by
  have hother : ∀ g, g ≠ listenSock →
      (start maxFd listenSock clock).server.comm.fdTable g = .zero ∧
      (start maxFd listenSock clock).server.comm.epollState g = .zero := by
    intro g hg
    simp [start, Framework.commInit, Function.update_of_ne hg]
  refine ⟨?_, ?_, rfl, ?_, rfl, fun g hg _ => hother g hg, ?_, ?_, ?_, Nat.one_pos, rfl,
    trivial, ?_⟩
  · simp [start, Framework.commInit, Fde.zero]
  · simp [start, Framework.commInit]
  · simp [start, Framework.commInit]
  · intro fd k _ hc
    cases hc
  · intro fd fd' k _ _ hc
    cases hc
  · intro k hk
    have hk0 : k ≠ 0 := Nat.ne_of_gt hk
    simp [start, Function.update_of_ne hk0]
  · intro id hid
    cases hid

lemma Inv.setClock (h : Inv.Of l s) (clock : ℕ) :
    Inv.Of l { s with comm := { s.comm with clock := clock } } := h

lemma Inv.step {s s' : State} (h : Inv.Of l s.server) {a : Act} (hs : step s a = some s') :
    Inv.Of l s'.server := by
  cases a with
  | wait evs elapsed =>
    have hwait : Inv.Of l (s.server.beforeWait (invoke .silent) 1000).2 := h.beforeWait 1000
    simp only [Echo.step] at hs
    generalize (s.server.beforeWait (invoke .silent) 1000).2 = server at hs hwait
    split at hs
    · split_ifs at hs
      cases hs
      exact hwait.setClock _
    · cases hs
  | dispatch sys =>
    simp only [Echo.step] at hs
    split at hs
    · split_ifs at hs with hp
      cases hs
      exact h.dispatch (fun g hg => (hp.1 g hg).1) _ _
    · cases hs
  | done =>
    simp only [Echo.step] at hs
    split at hs
    · cases hs
      exact h
    · cases hs

lemma inv_of_reach {ok : State → Act → Prop} {s : State} (h : system.Reach ok s) :
    ∃ l, Inv.Of l s.server := by
  refine h.invariant (I := fun s : State => ∃ l, Inv.Of l s.server) ?_ ?_
  · rintro s ⟨maxFd, listenSock, clock, rfl⟩
    exact ⟨listenSock, inv_start maxFd listenSock clock⟩
  · rintro s a s' ⟨l, hl⟩ - hs
    exact ⟨l, hl.step hs⟩

lemma LogOk.after_free {log : List Event} (h : LogOk log) {pre post : List Event} {id : ℕ}
    (he : log.reverse = pre ++ .free id :: post) :
    .free id ∉ post ∧ ∀ hdl fd, .call hdl fd (some id) ∉ post := by
  induction log generalizing post with
  | nil => simp at he
  | cons x log ih =>
    rw [List.reverse_cons] at he
    rcases List.eq_nil_or_concat post with rfl | ⟨post, y, rfl⟩
    · simp
    · rw [List.concat_eq_append, ← List.cons_append, ← List.append_assoc] at he
      obtain ⟨hlog, hxy⟩ := List.append_inj' he rfl
      cases hxy
      have hmem : Event.free id ∈ log := by
        rw [← List.mem_reverse, hlog]
        simp
      have htail : LogOk log := by
        cases x with
        | call hdl fd data => exact h.2
        | free j => exact h.2
      obtain ⟨hfree, hcall⟩ := ih htail hlog
      simp only [List.concat_eq_append, List.mem_append, List.mem_singleton, not_or]
      refine ⟨⟨hfree, ?_⟩, fun hdl fd => ⟨hcall hdl fd, ?_⟩⟩
      · rintro rfl
        exact h.1 hmem
      · rintro rfl
        exact h.1 id rfl hmem

/-- In every reachable state a client descriptor is closed, with empty entries,
or open, registered for one direction with a handler for it, with an armed
timeout, and with data pointers to the live `ConnectStat` of its connection. A
`ConnectStat` is freed at most once and given to no handler after that. -/
theorem clients_consistent {s : State} (h : system.Reachable s) :
    (∀ fd k, s.server.app.conn fd = some k →
      (s.server.comm.isOpen fd = false ∧ s.server.comm.fdTable fd = .zero ∧
        s.server.comm.epollState fd = .zero) ∨
      (s.server.comm.isOpen fd = true ∧
        (s.server.comm.epollState fd = .wanted true false ∧
            (s.server.comm.fdTable fd).readHandler ≠ none ∨
          s.server.comm.epollState fd = .wanted false true ∧
            (s.server.comm.fdTable fd).writeHandler ≠ none) ∧
        (s.server.comm.fdTable fd).timeout ≠ 0 ∧
        (s.server.comm.fdTable fd).timeoutHandler = some .doEchoTimeout ∧
        (∀ d ∈ (s.server.comm.fdTable fd).readData, d = k) ∧
        (∀ d ∈ (s.server.comm.fdTable fd).writeData, d = k) ∧
        (∀ d ∈ (s.server.comm.fdTable fd).timeoutData, d = k) ∧
        (s.server.app.stats k).isSome)) ∧
    ∀ pre post id, s.server.app.log.reverse = pre ++ .free id :: post →
      .free id ∉ post ∧ ∀ hdl fd, .call hdl fd (some id) ∉ post := by
  obtain ⟨l, hinv⟩ := inv_of_reach h
  refine ⟨fun fd k hc => ?_, fun _ _ _ he => hinv.log.after_free he⟩
  by_cases ho : s.server.comm.isOpen fd = true
  · obtain ⟨hok, hlive, -⟩ := hinv.client fd k ho hc
    obtain ⟨hwrite, hwd⟩ := hok.write
    obtain ⟨ht0, hth, htd⟩ := hok.timeout
    refine .inr ⟨ho, ?_, ht0, hth, ?_, ?_, ?_, hlive⟩
    · refine hok.mask.imp (fun hm => ⟨hm.1, by simp [hm.2]⟩) fun hm => ⟨hm, ?_⟩
      rcases hwrite with hw | hw <;> simp [hw]
    · rcases hok.read with ⟨-, hr⟩ | ⟨-, hr⟩ <;> simp [hr]
    · simp [hwd]
    · simp [htd]
  · have hno : s.server.comm.isOpen fd = false := Bool.not_eq_true _ ▸ ho
    exact .inl ⟨hno, hinv.closed fd (hinv.ne_listen hc) (.inl hno)⟩

/-- A client that is welcomed, read from and answered, and then closes. -/
def echoRun : List Act :=
  [.wait [(3, ⟨true, false, false, false⟩)] 0, .dispatch ⟨some 5, .error, .error⟩, .done,
    .wait [(5, ⟨false, true, false, false⟩)] 0, .dispatch ⟨none, .error, .all⟩, .done,
    .wait [(5, ⟨true, false, false, false⟩)] 0, .dispatch ⟨none, .data [65], .error⟩, .done,
    .wait [(5, ⟨false, true, false, false⟩)] 0, .dispatch ⟨none, .error, .all⟩, .done,
    .wait [(5, ⟨true, false, false, false⟩)] 0, .dispatch ⟨none, .closed, .error⟩]

theorem clients_consistent_echo :
    ∃ s, system.exec (start 8 3 0) echoRun = some s ∧ Event.free 1 ∈ s.server.app.log ∧
      ∀ pre post id, s.server.app.log.reverse = pre ++ .free id :: post →
        .free id ∉ post ∧ ∀ hdl fd, .call hdl fd (some id) ∉ post := by
  have hrun : (system.exec (start 8 3 0) echoRun).map (·.server.app.log.head?) =
      some (some (.free 1)) := by
    decide +kernel
  obtain ⟨s, hs, hlog⟩ := Option.map_eq_some_iff.mp hrun
  have hreach : system.Reachable s :=
    System.Reach.exec (.init ⟨8, 3, 0, rfl⟩) (fun _ _ _ => trivial) hs
  exact ⟨s, hs, List.mem_of_head? hlog, (clients_consistent hreach).2⟩

end ShareBike.Echo
