import ShareBike.EchoBuffer
import ShareBike.EchoTable

/-!
# What the echo server sends to a client

A client is to receive the welcome message and then the echo of each chunk that
was read from it, in order. An event with `EPOLLHUP` or `EPOLLERR` calls the
handlers of both directions, also one that is left over from before, and then a
message can be sent twice, or a chunk be read over one that still waits.
-/
namespace ShareBike.Echo
open ShareBike.Lib ShareBike.Comm

/-- What `do_echo_response` sends for a chunk. -/
def echo (chunk : List UInt8) : List UInt8 := cstr (arrow ++ chunk)

/-- The writes to a client are the welcome message and then the echoes of the
chunks read from it, and at most the last chunk still waits for its echo. -/
def Delivered (reads writes : List (List UInt8)) : Prop :=
  writes <+: welcome :: reads.map echo ∧ reads.length ≤ writes.length

/-- A `write` takes all of its bytes or fails. -/
def WholeWrites : Act → Prop
  | .dispatch sys => sys.write = .all ∨ sys.write = .error
  | _ => True

/-- An event with `EPOLLHUP` or `EPOLLERR`, for a client that has its echo handler:
if it is registered for reading, the `read` does not fail or the `write` fails too;
if it is registered for writing, no chunk arrives that is to be echoed. -/
def QuietAt (s : EchoServer) (sys : Sys) (fd : ℕ) (ev : Events) : Prop :=
  ev.broken = true → (s.comm.fdTable fd).readHandler = some .doEchoHandler →
    ((s.comm.epollState fd).epollin = true → ¬ (sys.read = .error ∧ sys.write = .all)) ∧
    ((s.comm.epollState fd).epollout = true →
      match sys.read with
      | .data bytes => startsWithCase bytes quit = true
      | _ => True)

def Quiet (s : State) : Act → Prop
  | .dispatch sys =>
    match s.pending with
    | some ((fd, ev) :: _) => QuietAt s.server sys fd ev
    | _ => True
  | _ => True

instance : (a : Act) → Decidable (WholeWrites a)
  | .dispatch _ => inferInstanceAs (Decidable (_ ∨ _))
  | .wait .. | .done => .isTrue trivial

instance (s : EchoServer) (fd : ℕ) (ev : Events) :
    (sys : Sys) → Decidable (QuietAt s sys fd ev)
  | ⟨_, .data _, _⟩ => inferInstanceAs (Decidable (_ → _ → _ ∧ (_ → _ = _)))
  | ⟨_, .closed, _⟩ => inferInstanceAs (Decidable (_ → _ → _ ∧ (_ → True)))
  | ⟨_, .error, _⟩ => inferInstanceAs (Decidable (_ → _ → _ ∧ (_ → True)))

instance : (s : State) → (a : Act) → Decidable (Quiet s a)
  | ⟨server, some ((fd, ev) :: _)⟩, .dispatch sys =>
    inferInstanceAs (Decidable (QuietAt server sys fd ev))
  | ⟨_, some []⟩, .dispatch _ | ⟨_, none⟩, .dispatch _ => .isTrue trivial
  | _, .wait .. | _, .done => .isTrue trivial

/-- Where the conversation with a client stands: it waits for the welcome message,
nothing is owed to it, or the echo of the last chunk is in the buffer. -/
inductive Phase (f : Fde Handler ℕ) (ev : Events) (reads writes : List (List UInt8))
    (buf : List UInt8) : Prop
  | fresh : f.readHandler = none → f.writeHandler = some .doWelcomeHandler →
      ev = .wanted false true → reads = [] → writes = [] → Phase f ev reads writes buf
  | idle : f.readHandler = some .doEchoHandler → ev = .wanted true false →
      writes = welcome :: reads.map echo → Phase f ev reads writes buf
  | owing (before : List (List UInt8)) (chunk rest : List UInt8) :
      f.readHandler = some .doEchoHandler → f.writeHandler = some .doEchoResponse →
      ev = .wanted false true → reads = before ++ [chunk] →
      writes = welcome :: before.map echo → buf = arrow ++ rest → cstr buf = echo chunk →
      Phase f ev reads writes buf

/-- The invariant, on the handler table, `epoll_state`, the open descriptors and
the application. -/
structure Delivery (t : ℕ → Fde Handler ℕ) (e : ℕ → Events) (o : ℕ → Bool) (a : App) :
    Prop where
  phase : ∀ fd k stat, o fd = true → a.conn fd = some k → a.stats k = some stat →
    Phase (t fd) (e fd) (a.reads k) (a.writes k) stat.sendBuf
  delivered : ∀ k, Delivered (a.reads k) (a.writes k)
  unused : ∀ k, a.nextStat ≤ k → a.reads k = [] ∧ a.writes k = []

abbrev Delivery.Of (s : EchoServer) : Prop :=
  Delivery s.comm.fdTable s.comm.epollState s.comm.isOpen s.app

/-- The two states differ in connection `k` at most. -/
structure SameBut (k : ℕ) (a a' : App) : Prop where
  conn : a'.conn = a.conn
  nextStat : a'.nextStat = a.nextStat
  stats : ∀ j, j ≠ k → a'.stats j = a.stats j
  reads : ∀ j, j ≠ k → a'.reads j = a.reads j
  writes : ∀ j, j ≠ k → a'.writes j = a.writes j

variable {l fd k : ℕ} {t : ℕ → Fde Handler ℕ} {e : ℕ → Events} {o : ℕ → Bool} {a a' : App}
  {s : EchoServer} {sys : Sys} {f : Fde Handler ℕ} {ev : Events}
  {reads writes : List (List UInt8)} {buf : List UInt8}

lemma Phase.delivered (h : Phase f ev reads writes buf) : Delivered reads writes := by
  cases h with
  | fresh _ _ _ hr hw =>
    subst hr hw
    exact ⟨List.nil_prefix, le_rfl⟩
  | idle _ _ hw =>
    subst hw
    exact ⟨List.prefix_refl _, by simp⟩
  | owing before chunk rest _ _ _ hr hw =>
    subst hr hw
    refine ⟨?_, by simp⟩
    rw [List.map_append, ← List.cons_append]
    exact List.prefix_append _ _

/-- The start of the buffer is written again before every `read`. -/
lemma Phase.overwrite_arrow (h : Phase f ev reads writes buf) :
    Phase f ev reads writes (overwrite buf 0 arrow) := by
  cases h with
  | fresh hrd hwr hev hr hw => exact .fresh hrd hwr hev hr hw
  | idle hrd hev hw => exact .idle hrd hev hw
  | owing before chunk rest hrd hwr hev hr hw hbuf hcstr =>
    subst hbuf
    have hsame : overwrite (arrow ++ rest) 0 arrow = arrow ++ rest := by
      rw [overwrite_zero, List.drop_left]
    exact .owing before chunk rest hrd hwr hev hr hw hsame (by rw [hsame, hcstr])

lemma Inv.client_lt (h : Inv l t e o a) (ho : o fd = true) (hc : a.conn fd = some k) :
    k < a.nextStat := by
  by_contra hge
  have hlive := (h.client fd k ho hc).2.1
  rw [h.bound k (Nat.not_lt.mp hge)] at hlive
  cases hlive

/-- The conversations with the other clients go on as they were. -/
lemma Delivery.phase_other (h : Delivery t e o a) (hi : Inv l t e o a) (ho : o fd = true)
    (hc : a.conn fd = some k) (hs : SameBut k a a') {g j : ℕ} (hg : g ≠ fd) (hog : o g = true)
    (hcg : a'.conn g = some j) {stat : ConnectStat} (hstat : a'.stats j = some stat) :
    Phase (t g) (e g) (a'.reads j) (a'.writes j) stat.sendBuf := by
  rw [hs.conn] at hcg
  have hjk : j ≠ k := by
    rintro rfl
    exact hg (hi.inj g fd j hog ho hcg hc)
  rw [hs.stats j hjk] at hstat
  rw [hs.reads j hjk, hs.writes j hjk]
  exact h.phase g j stat hog hcg hstat

lemma Delivery.unused_of (h : Delivery t e o a) (hs : SameBut k a a') (hk : k < a.nextStat)
    (j : ℕ) (hj : a'.nextStat ≤ j) : a'.reads j = [] ∧ a'.writes j = [] := by
  rw [hs.nextStat] at hj
  have hjk : j ≠ k := by
    rintro rfl
    exact Nat.not_lt.mpr hj hk
  rw [hs.reads j hjk, hs.writes j hjk]
  exact h.unused j hj

/-- A client enters a phase. -/
lemma Delivery.setClient (h : Delivery t e o a) (hi : Inv l t e o a) (ho : o fd = true)
    (hc : a.conn fd = some k) (hs : SameBut k a a') {stat : ConnectStat}
    (hstat : a'.stats k = some stat)
    (hp : Phase f ev (a'.reads k) (a'.writes k) stat.sendBuf) :
    Delivery (Function.update t fd f) (Function.update e fd ev) o a' := by
  refine ⟨?_, ?_, h.unused_of hs (hi.client_lt ho hc)⟩
  · intro g j stat' hog hcg hstat'
    by_cases hg : g = fd
    · subst hg
      rw [hs.conn, hc] at hcg
      cases hcg
      rw [hstat] at hstat'
      cases hstat'
      rw [Function.update_self, Function.update_self]
      exact hp
    · rw [Function.update_of_ne hg, Function.update_of_ne hg]
      exact h.phase_other hi ho hc hs hg hog hcg hstat'
  · intro j
    by_cases hjk : j = k
    · rw [hjk]
      exact hp.delivered
    · rw [hs.reads j hjk, hs.writes j hjk]
      exact h.delivered j

/-- A client is closed; nothing more is written to it. -/
lemma Delivery.closeClient (h : Delivery t e o a) (hi : Inv l t e o a) (ho : o fd = true)
    (hc : a.conn fd = some k) (hs : SameBut k a a') (hr : a'.reads k = a.reads k)
    (hw : a'.writes k = a.writes k) :
    Delivery (Function.update t fd .zero) (Function.update e fd .zero)
      (Function.update o fd false) a' := by
  refine ⟨?_, ?_, h.unused_of hs (hi.client_lt ho hc)⟩
  · intro g j stat hog hcg hstat
    have hg : g ≠ fd := by
      rintro rfl
      rw [Function.update_self] at hog
      cases hog
    rw [Function.update_of_ne hg] at hog
    rw [Function.update_of_ne hg, Function.update_of_ne hg]
    exact h.phase_other hi ho hc hs hg hog hcg hstat
  · intro j
    by_cases hjk : j = k
    · rw [hjk, hr, hw]
      exact h.delivered k
    · rw [hs.reads j hjk, hs.writes j hjk]
      exact h.delivered j

/-- A new connection waits for the welcome message. -/
lemma Delivery.accept (h : Delivery t e o a) {newFd : ℕ} (hr : f.readHandler = none)
    (hw : f.writeHandler = some .doWelcomeHandler) (hev : ev = .wanted false true)
    (hlt : ∀ g j, o g = true → a.conn g = some j → j ≠ a.nextStat) (stat : ConnectStat) :
    Delivery (Function.update t newFd f) (Function.update e newFd ev)
      (Function.update o newFd true)
      { a with
        stats := Function.update a.stats a.nextStat (some stat)
        nextStat := a.nextStat + 1
        conn := Function.update a.conn newFd (some a.nextStat) } := by
  refine ⟨?_, h.delivered, fun j hj => h.unused j (Nat.le_of_succ_le hj)⟩
  intro g j stat' hog hcg hstat
  have hconn : Function.update a.conn newFd (some a.nextStat) g = some j := hcg
  have hstats : Function.update a.stats a.nextStat (some stat) j = some stat' := hstat
  by_cases hg : g = newFd
  · subst hg
    rw [Function.update_self] at hconn
    have hj : a.nextStat = j := Option.some.inj hconn
    obtain ⟨hreads, hwrites⟩ := h.unused j (Nat.le_of_eq hj)
    rw [Function.update_self, Function.update_self]
    exact .fresh hr hw hev hreads hwrites
  · rw [Function.update_of_ne hg] at hog
    rw [Function.update_of_ne hg] at hconn
    rw [Function.update_of_ne (hlt g j hog hconn)] at hstats
    rw [Function.update_of_ne hg, Function.update_of_ne hg]
    exact h.phase g j stat' hog hconn hstats

/-- Calls and frees do not matter. -/
lemma Delivery.setLog (h : Delivery t e o a) (log : List Event) :
    Delivery t e o { a with log := log } :=
  ⟨h.phase, h.delivered, h.unused⟩

lemma SameBut.setStat (a : App) (stat : Option ConnectStat) :
    SameBut k a { a with stats := Function.update a.stats k stat } :=
  ⟨rfl, rfl, fun _ hj => Function.update_of_ne hj _ _, fun _ _ => rfl, fun _ _ => rfl⟩

lemma SameBut.write (hc : a.conn fd = some k) (bytes : List UInt8) :
    SameBut k a { a with writes := append a.writes (a.conn fd) bytes } := by
  refine ⟨rfl, rfl, fun _ _ => rfl, fun _ _ => rfl, fun j hj => ?_⟩
  rw [hc]
  exact Function.update_of_ne hj _ _

lemma append_self (hc : a.conn fd = some k) (g : ℕ → List (List UInt8)) (bytes : List UInt8) :
    append g (a.conn fd) bytes k = g k ++ [bytes] := by
  rw [hc]
  exact Function.update_self _ _ _

/-- A left over welcome handler is harmless only if its `write` fails. -/
lemma doWelcomeHandler_delivery (h : Delivery.Of s) (hi : Inv.Of l s)
    (ho : s.comm.isOpen fd = true) (hc : s.app.conn fd = some k)
    (hw : (s.comm.fdTable fd).writeHandler = some .doWelcomeHandler)
    (hwhole : sys.write = .all ∨ sys.write = .error)
    (hquiet : (s.comm.epollState fd).epollin = true → sys.write ≠ .all) :
    Delivery.Of (doWelcomeHandler sys fd (some k) s) := by
  obtain ⟨stat, hstat⟩ := Option.isSome_iff_exists.mp (hi.client fd k ho hc).2.1
  rcases hwhole with hall | herr
  · have hphase := h.phase fd k stat ho hc hstat
    cases hphase with
    | idle _ hev => exact absurd hall (hquiet (by rw [hev]; rfl))
    | owing _ _ _ _ hw' =>
      rw [hw'] at hw
      cases hw
    | fresh _ _ _ hreads hwrites =>
      have ht : (0 : ℤ) ≤ 10 := by decide
      simp only [doWelcomeHandler, sysWrite_all hall, ne_eq, not_true_eq_false, if_false,
        Delivery.Of, Framework.commUpdateReadHandler_commSetTimeout _ _ _ ht,
        Framework.commSetTimeout_epollState, Framework.commUpdateReadHandler_epollState,
        Framework.commSetTimeout_isOpen, Framework.commUpdateReadHandler_isOpen]
      refine h.setClient hi ho hc (.write hc welcome) hstat
        (.idle rfl rfl ((append_self hc _ _).trans ?_))
      change _ = welcome :: (s.app.reads k).map echo
      rw [hwrites, hreads]
      rfl
  · have hne : (-1 : ℤ) ≠ welcome.length := by decide
    simp only [doWelcomeHandler, sysWrite_error herr]
    rw [if_pos hne]
    exact h

/-- A left over response handler is harmless only if its `write` fails. -/
lemma doEchoResponse_delivery (h : Delivery.Of s) (hi : Inv.Of l s)
    (ho : s.comm.isOpen fd = true) (hc : s.app.conn fd = some k)
    (hw : (s.comm.fdTable fd).writeHandler = some .doEchoResponse)
    (hwhole : sys.write = .all ∨ sys.write = .error)
    (hquiet : (s.comm.epollState fd).epollin = true → sys.write ≠ .all) :
    Delivery.Of (doEchoResponse sys fd (some k) s) := by
  obtain ⟨stat, hstat⟩ := Option.isSome_iff_exists.mp (hi.client fd k ho hc).2.1
  simp only [doEchoResponse, Option.bind_some, hstat]
  rcases hwhole with hall | herr
  · have hphase := h.phase fd k stat ho hc hstat
    cases hphase with
    | idle _ hev => exact absurd hall (hquiet (by rw [hev]; rfl))
    | fresh _ hw' =>
      rw [hw'] at hw
      cases hw
    | owing before chunk rest hrd _ _ hreads hwrites hbuf hcstr =>
      have hpos : ((cstr stat.sendBuf).length : ℤ) > 0 := by
        rw [hbuf]
        simp [arrow, cstr]
        omega
      have ht := Framework.commSetTimeout_fdTable s.comm fd (by decide : (0 : ℤ) ≤ 10)
        Handler.doEchoTimeout (some k)
      simp only [sysWrite_all hall]
      rw [if_pos hpos]
      simp only [Delivery.Of, Framework.commUpdateReadHandler_fdTable, ht, Function.update_self,
        Function.update_idem, Framework.commUpdateReadHandler_epollState,
        Framework.commSetTimeout_epollState, Framework.commUpdateReadHandler_isOpen,
        Framework.commSetTimeout_isOpen]
      refine h.setClient hi ho hc (.write hc _) hstat
        (.idle rfl rfl ((append_self hc _ _).trans ?_))
      change _ = welcome :: (s.app.reads k).map echo
      rw [hwrites, hreads, hcstr, List.map_append]
      rfl
  · simp only [sysWrite_error herr]
    exact h

lemma setSendBuf_closeAndFree (h : Delivery.Of s) (hi : Inv.Of l s)
    (ho : s.comm.isOpen fd = true) (hc : s.app.conn fd = some k) (stat : ConnectStat)
    (buf : List UInt8) : Delivery.Of (closeAndFree fd (some k) (setSendBuf s k stat buf)) := by
  simp only [Delivery.Of, closeAndFree, Framework.commClose_fdTable,
    Framework.commClose_epollState, Framework.commClose_isOpen, setSendBuf, Function.update_idem]
  exact (h.closeClient hi ho hc (.setStat s.app none) rfl rfl).setLog _

/-- A chunk is read only while no echo is owed, so that none is lost. -/
lemma doEchoHandler_delivery (h : Delivery.Of s) (hi : Inv.Of l s)
    (ho : s.comm.isOpen fd = true) (hc : s.app.conn fd = some k)
    (hr : (s.comm.fdTable fd).readHandler = some .doEchoHandler)
    (hquiet : (s.comm.epollState fd).epollout = true →
      ∀ bytes, sys.read = .data bytes → startsWithCase bytes quit = true) :
    Delivery.Of (doEchoHandler sys fd (some k) s) := by
  obtain ⟨stat, hstat⟩ := Option.isSome_iff_exists.mp (hi.client fd k ho hc).2.1
  have hphase := h.phase fd k stat ho hc hstat
  cases hread : sys.read with
  | data bytes =>
    obtain ⟨rest, hbuf⟩ : ∃ rest, overwrite (overwrite stat.sendBuf 0 arrow) arrow.length
        (bytes ++ [0]) = arrow ++ (bytes ++ 0 :: rest) := by
      rw [overwrite_chunk, holding, List.append_assoc]
      exact ⟨_, rfl⟩
    simp only [doEchoHandler, Option.bind_some, hstat, Option.map_some, hread, hbuf,
      List.drop_left, startsWithCase_append_nul (by decide : (0 : UInt8) ∉ quit)]
    split_ifs with hq
    · exact setSendBuf_closeAndFree h hi ho hc stat _
    · cases hphase with
      | fresh hr' =>
        rw [hr'] at hr
        cases hr
      | owing _ _ _ _ _ hev =>
        exact absurd (hquiet (by rw [hev]; rfl) bytes hread) hq
      | idle _ _ hwrites =>
        have ht : (0 : ℤ) ≤ 10 := by decide
        simp only [Delivery.Of, setSendBuf,
          Framework.commUpdateWriteHandler_commSetTimeout _ _ _ ht,
          Framework.commSetTimeout_epollState, Framework.commUpdateWriteHandler_epollState,
          Framework.commSetTimeout_isOpen, Framework.commUpdateWriteHandler_isOpen]
        refine h.setClient hi ho hc ⟨rfl, rfl, fun j hj => Function.update_of_ne hj _ _, ?_,
          fun _ _ => rfl⟩ (Function.update_self _ _ _)
          (.owing (s.app.reads k) bytes (bytes ++ 0 :: rest) hr rfl rfl
            (append_self hc _ _) hwrites rfl ?_)
        · intro j hj
          rw [hc]
          exact Function.update_of_ne hj _ _
        · change cstr (arrow ++ (bytes ++ 0 :: rest)) = echo bytes
          rw [← List.append_assoc, cstr_append_nul]
          rfl
  | closed =>
    simp only [doEchoHandler, Option.bind_some, hstat, Option.map_some, hread]
    exact setSendBuf_closeAndFree h hi ho hc stat _
  | error =>
    simp only [doEchoHandler, Option.bind_some, hstat, Option.map_some, hread]
    have hset := h.setClient hi ho hc
      (.setStat s.app (some { stat with sendBuf := overwrite stat.sendBuf 0 arrow }))
      (Function.update_self _ _ _) hphase.overwrite_arrow
    rwa [Function.update_eq_self, Function.update_eq_self] at hset

/-- Only a failed `read` leaves a client registered for reading. -/
lemma doEchoHandler_epollin (hstat : (s.app.stats k).isSome)
    (ho : (doEchoHandler sys fd (some k) s).comm.isOpen fd = true)
    (he : ((doEchoHandler sys fd (some k) s).comm.epollState fd).epollin = true) :
    sys.read = .error ∧ (s.comm.epollState fd).epollin = true := by
  obtain ⟨stat, hstat⟩ := Option.isSome_iff_exists.mp hstat
  revert ho he
  simp only [doEchoHandler, Option.bind_some, hstat, Option.map_some]
  cases sys.read with
  | data bytes =>
    dsimp only
    split_ifs
    · simp [closeAndFree]
    · simp [Events.wanted]
  | closed => simp [closeAndFree]
  | error => exact fun _ he => ⟨rfl, he⟩

lemma acceptConnection_delivery (h : Delivery.Of s) (hi : Inv.Of l s)
    (hacc : ∀ g ∈ sys.accept, s.comm.isOpen g = false) :
    Delivery.Of (acceptConnection sys s) := by
  simp only [acceptConnection]
  split
  · exact h
  · rename_i newFd he
    obtain ⟨hpos, hzero⟩ := hi.accepted (hacc newFd he)
    have ht : (0 : ℤ) ≤ 30 := by decide
    rw [if_pos hpos]
    simp only [Delivery.Of, Framework.commUpdateWriteHandler_commSetTimeout _ _ _ ht,
      Framework.commSetTimeout_epollState, Framework.commUpdateWriteHandler_epollState,
      Framework.commSetTimeout_isOpen, Framework.commUpdateWriteHandler_isOpen]
    refine h.accept ?_ rfl rfl ?_ _
    · simp only [hzero]
      rfl
    · intro g j hog hcg
      exact Nat.ne_of_lt (hi.client_lt hog hcg)

/-- When `e` calls the write handler of a client that does not wait to be written
to, the `write` fails. -/
def WriteQuiet (s : EchoServer) (sys : Sys) (fd : ℕ) (e : Events) : Prop :=
  ∀ k, s.app.conn fd = some k → s.comm.isOpen fd = true →
    (s.comm.epollState fd).epollin = true → e.nonzero = true → sys.write ≠ .all

lemma Delivery.callWriteHandler (h : Delivery.Of s) (hi : Inv.Of l s)
    (hwhole : sys.write = .all ∨ sys.write = .error) {e : Events}
    (hquiet : WriteQuiet s sys fd e) : Delivery.Of (s.callWriteHandler (invoke sys) fd e) := by
  rw [Server.callWriteHandler]
  split
  · rename_i hdl hw
    split_ifs with he
    · obtain ⟨k, ho, hc, hs, hd⟩ := hi.writer hw
      have hcall := hi.call hdl fd (hi.client fd k ho hc).2.1
      have hlog := h.setLog (.call hdl fd (some k) :: s.app.log)
      have hq := fun hin => hquiet k hc ho hin he
      rw [hd]
      rcases hs with rfl | rfl
      · exact doWelcomeHandler_delivery hlog hcall ho hc hw hwhole hq
      · exact doEchoResponse_delivery hlog hcall ho hc hw hwhole hq
    · exact h
  · exact h

lemma mask_client (h : Inv.Of l s) (ho : s.comm.isOpen fd = true)
    (hc : s.app.conn fd = some k) :
    ((s.comm.epollState fd).epollin = true → (s.comm.epollState fd).epollout = false) ∧
      ((s.comm.epollState fd).epollin = true →
        (s.comm.fdTable fd).readHandler = some .doEchoHandler) := by
  rcases (h.client fd k ho hc).1.mask with ⟨hev, hr⟩ | hev
  · rw [hev]
    exact ⟨fun _ => rfl, fun _ => hr⟩
  · rw [hev]
    exact ⟨fun hin => absurd hin (by decide), fun hin => absurd hin (by decide)⟩

/-- The read handler of an event leaves the client such that its write handler
may be called. -/
lemma Delivery.callReadHandler (h : Delivery.Of s) (hi : Inv.Of l s)
    (hacc : ∀ g ∈ sys.accept, s.comm.isOpen g = false)
    (hwithin : ev.Within (s.comm.epollState fd)) (hquiet : QuietAt s sys fd ev) :
    Delivery.Of (s.callReadHandler (invoke sys) fd { ev with epollout := false }) ∧
      WriteQuiet (s.callReadHandler (invoke sys) fd { ev with epollout := false }) sys fd
        { ev with epollin := false } := by
  have hbroken : ∀ k, s.app.conn fd = some k → s.comm.isOpen fd = true →
      (s.comm.epollState fd).epollin = true →
      ({ ev with epollin := false } : Events).nonzero = true → ev.broken = true := by
    intro k hc ho hin hw
    rw [Events.nonzero_write, Bool.or_eq_true] at hw
    refine hw.resolve_left fun hout => ?_
    have hreg := hwithin.2 hout
    rw [(mask_client hi ho hc).1 hin] at hreg
    cases hreg
  rw [Server.callReadHandler]
  split
  · rename_i hdl hr
    split_ifs with he
    · have hinv := hi.invokeRead hacc hr
      rcases hi.reader hr with ⟨rfl, rfl, hd⟩ | ⟨k, ho, hc, rfl, hd⟩
      · rw [hd] at hinv ⊢
        refine ⟨?_, fun k hc => ?_⟩
        · exact acceptConnection_delivery (h.setLog _)
            (hi.call .acceptConnection fd hi.listen_stat) hacc
        · rw [hinv.listen_conn] at hc
          cases hc
      · have hlive := (hi.client fd k ho hc).2.1
        rw [hd]
        refine ⟨doEchoHandler_delivery (h.setLog _) (hi.call .doEchoHandler fd hlive) ho hc hr
          fun hout bytes hread => ?_, fun j _ ho' hin' hw hall => ?_⟩
        · rw [Events.nonzero_read, Bool.or_eq_true] at he
          have hb : ev.broken = true := by
            refine he.resolve_left fun hin => ?_
            have hreg := (mask_client hi ho hc).1 (hwithin.1 hin)
            rw [hout] at hreg
            cases hreg
          have hq := (hquiet hb hr).2 hout
          rwa [hread] at hq
        · obtain ⟨hread, hin⟩ := doEchoHandler_epollin (s := { s with
            app := { s.app with log := .call .doEchoHandler fd (some k) :: s.app.log } })
            hlive ho' hin'
          exact (hquiet (hbroken k hc ho hin hw) hr).1 hin ⟨hread, hall⟩
    · refine ⟨h, fun k hc ho hin hw => ?_⟩
      rw [Events.nonzero_read, hbroken k hc ho hin hw, Bool.or_true] at he
      exact absurd rfl he
  · rename_i hr
    refine ⟨h, fun k hc ho hin => ?_⟩
    rw [(mask_client hi ho hc).2 hin] at hr
    cases hr

lemma Delivery.dispatch (h : Delivery.Of s) (hi : Inv.Of l s)
    (hacc : ∀ g ∈ sys.accept, s.comm.isOpen g = false)
    (hwhole : sys.write = .all ∨ sys.write = .error)
    (hwithin : ev.Within (s.comm.epollState fd)) (hquiet : QuietAt s sys fd ev) :
    Delivery.Of (s.dispatch (invoke sys) fd ev) := by
  have haccess : Delivery.Of (s.access fd) := h
  have hinv : Inv.Of l (s.access fd) := hi
  obtain ⟨hread, hwrite⟩ := haccess.callReadHandler hinv hacc hwithin hquiet
  exact hread.callWriteHandler (hinv.callReadHandler hacc fd _) hwhole hwrite

lemma Delivery.checkTimeout (h : Delivery.Of s) (hi : Inv.Of l s) (fd : ℕ) :
    Delivery.Of (s.checkTimeout (invoke sys) fd) := by
  rcases hi.checkTimeout_cases sys fd with hsame | ⟨k, ho, hc, htd, hclosed⟩
  · rw [hsame]
    exact h
  · rw [hclosed, htd]
    simp only [Delivery.Of, invoke, closeAndFree, Framework.commClose_fdTable,
      Framework.commClose_epollState, Framework.commClose_isOpen, Framework.setFde_fdTable,
      Framework.setFde_epollState, Framework.setFde_isOpen]
    have htable : Function.update (Function.update (s.comm.access fd).fdTable fd
        { s.comm.fdTable fd with timeoutHandler := none }) fd Fde.zero =
          Function.update s.comm.fdTable fd Fde.zero := Function.update_idem ..
    rw [htable]
    exact (h.closeClient hi ho hc (.setStat s.app none) rfl rfl).setLog _

/-- A handler leaves the registration of the other open descriptors alone. -/
lemma invoke_other {g : ℕ} (hg : g ≠ fd) (hacc : sys.accept ≠ some g) (hdl : Handler)
    (data : Option ℕ) (s : EchoServer) :
    (invoke sys hdl fd data s).comm.epollState g = s.comm.epollState g ∧
      (invoke sys hdl fd data s).comm.isOpen g = s.comm.isOpen g := by
  have hclose : ∀ s : EchoServer,
      (closeAndFree fd data s).comm.epollState g = s.comm.epollState g ∧
        (closeAndFree fd data s).comm.isOpen g = s.comm.isOpen g := by
    intro s
    simp [closeAndFree, Function.update_of_ne hg]
  cases hdl with
  | acceptConnection =>
    simp only [invoke, acceptConnection]
    split
    · exact ⟨rfl, rfl⟩
    · rename_i newFd he
      have hne : g ≠ newFd := by
        rintro rfl
        exact hacc he
      split_ifs <;> simp [Function.update_of_ne hne]
  | doWelcomeHandler =>
    simp only [invoke, doWelcomeHandler]
    split <;> simp [sysWrite_comm, Function.update_of_ne hg]
  | doEchoHandler =>
    simp only [invoke, doEchoHandler]
    split
    · exact ⟨rfl, rfl⟩
    · split
      · split_ifs
        · exact hclose _
        · simp [setSendBuf, Function.update_of_ne hg]
      · exact hclose _
      · exact ⟨rfl, rfl⟩
  | doEchoResponse =>
    simp only [invoke, doEchoResponse]
    split
    · exact ⟨rfl, rfl⟩
    · split_ifs
      · simp [sysWrite_comm, Function.update_of_ne hg]
      · refine (hclose _).imp (fun h => h.trans ?_) fun h => h.trans ?_ <;> rw [sysWrite_comm]
      · rw [sysWrite_comm]
        exact ⟨rfl, rfl⟩
  | doEchoTimeout => exact hclose _

/-- No handler lets `epoll_state` and the interest set come apart. -/
lemma invoke_registered (h : s.comm.Registered) (hdl : Handler) (fd : ℕ) (data : Option ℕ) :
    (invoke sys hdl fd data s).comm.Registered := by
  have hclose : ∀ s : EchoServer, s.comm.Registered →
      (closeAndFree fd data s).comm.Registered := fun _ hs => hs.commClose fd
  cases hdl with
  | acceptConnection =>
    simp only [invoke, acceptConnection]
    split
    · exact h
    · split_ifs
      · dsimp only
        refine Framework.Registered.commSetTimeout _
          (Framework.Registered.commUpdateWriteHandler _ ?_ _ _) _ _ _
        exact h
      · exact h
  | doWelcomeHandler =>
    simp only [invoke, doWelcomeHandler]
    split
    · rw [sysWrite_comm]
      exact h
    · simp only [sysWrite_comm]
      exact (Framework.Registered.commUpdateReadHandler _ h _ _).commSetTimeout _ _ _ _
  | doEchoHandler =>
    simp only [invoke, doEchoHandler]
    split
    · exact h
    · split
      · split_ifs
        · exact hclose _ h
        · dsimp only
          refine Framework.Registered.commSetTimeout _
            (Framework.Registered.commUpdateWriteHandler _ ?_ _ _) _ _ _
          exact h
      · exact hclose _ h
      · exact h
  | doEchoResponse =>
    simp only [invoke, doEchoResponse]
    split
    · exact h
    · split_ifs
      · simp only [sysWrite_comm]
        exact (Framework.Registered.commSetTimeout _ h _ _ _).commUpdateReadHandler _ _ _
      · refine hclose _ ?_
        rw [sysWrite_comm]
        exact h
      · rw [sysWrite_comm]
        exact h
  | doEchoTimeout => exact hclose _ h

/-- The events that are still to be handled are for open descriptors and lie
within the registered masks, each descriptor once. -/
def PendingOk (s : State) : Prop :=
  ∀ evs ∈ s.pending, (evs.map Prod.fst).Nodup ∧ ∀ e ∈ evs,
    s.server.comm.isOpen e.1 = true ∧ e.2.Within (s.server.comm.epollState e.1)

structure Served (l : ℕ) (s : State) : Prop where
  inv : Inv.Of l s.server
  registered : s.server.comm.Registered
  delivery : Delivery.Of s.server
  pending : PendingOk s

lemma beforeWait_served (sys : Sys) (hi : Inv.Of l s) (hr : s.comm.Registered)
    (hd : Delivery.Of s) (msec : ℤ) : Inv.Of l (s.beforeWait (invoke sys) msec).2 ∧
      (s.beforeWait (invoke sys) msec).2.comm.Registered ∧
      Delivery.Of (s.beforeWait (invoke sys) msec).2 := by
  have hscan : ∀ (s : EchoServer) fd,
      Inv.Of l s ∧ s.comm.Registered ∧ Delivery.Of s →
        Inv.Of l (s.checkTimeout (invoke sys) fd) ∧
        (s.checkTimeout (invoke sys) fd).comm.Registered ∧
        Delivery.Of (s.checkTimeout (invoke sys) fd) := ?_
  · exact Server.beforeWait_invariant
      (P := fun s : EchoServer => Inv.Of l s ∧ s.comm.Registered ∧ Delivery.Of s) hscan
      (fun _ _ hs => hs) ⟨hi, hr, hd⟩ msec
  rintro s fd ⟨hi, hr, hd⟩
  refine ⟨hi.checkTimeout fd, ?_, hd.checkTimeout hi fd⟩
  rcases hi.checkTimeout_cases sys fd with hsame | ⟨k, -, -, -, hclosed⟩
  · rw [hsame]
    exact hr
  · rw [hclosed]
    refine invoke_registered ?_ _ _ _
    exact hr

/-- What `epoll_wait` reports is registered, and only open descriptors are. -/
lemma Served.wait (hi : Inv.Of l s) (hr : s.comm.Registered) (hd : Delivery.Of s)
    {evs : List (ℕ × Events)} (hb : Batch s.comm.interest evs) (clock : ℕ) :
    Served l ⟨{ s with comm := { s.comm with clock := clock } }, some evs⟩ := by
  refine ⟨hi.setClock clock, hr, hd, ?_⟩
  intro evs' hevs
  cases hevs
  refine ⟨hb.2.1, fun ev hev => ?_⟩
  obtain ⟨-, r, hint, hwithin⟩ := hb.2.2 ev hev
  have hreg := hr.eq ev.1
  rw [hint] at hreg
  split_ifs at hreg with hnz
  cases hreg
  refine ⟨?_, hwithin⟩
  by_contra hno
  by_cases hl : ev.1 = l
  · exact hno (hl ▸ hi.listen_open)
  · rw [(hi.closed ev.1 hl (.inl (Bool.not_eq_true _ ▸ hno))).2] at hnz
    cases hnz

lemma Served.step {s s' : State} (h : Served l s) {act : Act}
    (hok : WholeWrites act ∧ Quiet s act) (hs : step s act = some s') : Served l s' := by
  have hinv := h.inv.step hs
  cases act with
  | wait evs elapsed =>
    obtain ⟨hi, hr, hd⟩ := beforeWait_served .silent h.inv h.registered h.delivery 1000
    simp only [Echo.step] at hs
    generalize (s.server.beforeWait (invoke .silent) 1000).2 = server at hs hi hr hd
    split at hs
    · split_ifs at hs with hb
      cases hs
      exact .wait hi hr hd hb _
    · cases hs
  | dispatch sys =>
    simp only [Echo.step] at hs
    split at hs
    · rename_i fd ev evs hpend
      split_ifs at hs with hp
      cases hs
      have hacc : ∀ g ∈ sys.accept, s.server.comm.isOpen g = false := fun g hg => (hp.1 g hg).1
      obtain ⟨hnodup, hevs⟩ := h.pending _ hpend
      obtain ⟨-, hwithin⟩ := hevs (fd, ev) (by simp)
      have hquiet : QuietAt s.server sys fd ev := by
        have hq := hok.2
        simp only [Quiet, hpend] at hq
        exact hq
      refine ⟨hinv, ?_, h.delivery.dispatch h.inv hacc hok.1 hwithin hquiet, ?_⟩
      · exact Server.dispatch_invariant (P := fun s : EchoServer => s.comm.Registered)
          (fun _ hr => hr) (fun hdl data _ hr => invoke_registered hr hdl fd data)
          h.registered ev
      · intro evs' he
        cases he
        rw [List.map_cons, List.nodup_cons] at hnodup
        refine ⟨hnodup.2, fun e he => ?_⟩
        obtain ⟨hopen, hin⟩ := hevs e (List.mem_cons_of_mem _ he)
        have hne : e.1 ≠ fd := by
          rintro rfl
          exact hnodup.1 (List.mem_map.mpr ⟨e, he, rfl⟩)
        have hother : sys.accept ≠ some e.1 := by
          intro hg
          rw [hacc e.1 hg] at hopen
          cases hopen
        exact Server.dispatch_invariant
          (P := fun s : EchoServer => s.comm.isOpen e.1 = true ∧
            e.2.Within (s.comm.epollState e.1))
          (fun _ hs => hs) (fun hdl data s hs => by
            rwa [(invoke_other hne hother hdl data s).1,
              (invoke_other hne hother hdl data s).2]) ⟨hopen, hin⟩ ev
    · cases hs
  | done =>
    simp only [Echo.step] at hs
    split at hs
    · cases hs
      exact ⟨hinv, h.registered, h.delivery, fun _ he => by cases he⟩
    · cases hs

lemma served_start (maxFd listenSock clock : ℕ) :
    Served listenSock (start maxFd listenSock clock) := by
  refine ⟨inv_start maxFd listenSock clock, ?_, ⟨?_, ?_, fun _ _ => ⟨rfl, rfl⟩⟩,
    fun _ he => by cases he⟩
  · have hinit : (Framework.commInit maxFd (fun fd => fd = 0 ∨ fd = listenSock) clock :
        Framework Handler ℕ).Registered := fun _ => rfl
    exact hinit.commUpdateReadHandler _ _ _
  · intro fd k stat _ hc
    cases hc
  · intro k
    exact ⟨List.nil_prefix, le_rfl⟩

/-- In every run whose steps meet the condition, what was written to a client is
one welcome message and the echoes of the chunks read from it, each once and in
order, and no chunk is read before the one before it was echoed. -/
theorem delivered_in_order {s : State}
    (h : system.Reach (fun s act => WholeWrites act ∧ Quiet s act) s) (k : ℕ) :
    Delivered (s.server.app.reads k) (s.server.app.writes k) := by
  have hserved : ∃ l, Served l s := by
    refine h.invariant (I := fun s => ∃ l, Served l s) ?_ ?_
    · rintro s ⟨maxFd, listenSock, clock, rfl⟩
      exact ⟨listenSock, served_start maxFd listenSock clock⟩
    · rintro s act s' ⟨l, hl⟩ hok hs
      exact ⟨l, hl.step hok hs⟩
  obtain ⟨l, hl⟩ := hserved
  exact hl.delivery.delivered k

/-- A client that is welcomed and gets two echoes, the second in one event with
its chunk. -/
def hangupRun : List Act :=
  [.wait [(3, ⟨true, false, false, false⟩)] 0, .dispatch ⟨some 5, .error, .error⟩, .done,
    .wait [(5, ⟨false, true, false, false⟩)] 0, .dispatch ⟨none, .error, .all⟩, .done,
    .wait [(5, ⟨true, false, false, false⟩)] 0, .dispatch ⟨none, .data [65], .error⟩, .done,
    .wait [(5, ⟨false, true, false, false⟩)] 0, .dispatch ⟨none, .error, .all⟩, .done,
    .wait [(5, ⟨true, false, false, true⟩)] 0, .dispatch ⟨none, .data [66], .all⟩]

theorem delivered_in_order_hangup :
    ∃ s, system.exec (start 8 3 0) hangupRun = some s ∧
      s.server.app.writes 1 = [welcome, [45, 62, 65], [45, 62, 66]] ∧
      Delivered (s.server.app.reads 1) (s.server.app.writes 1) := by
  have hrun : ((system.guard fun s act => WholeWrites act ∧ Quiet s act).exec (start 8 3 0)
      hangupRun).map (·.server.app.writes 1) =
        some [welcome, [45, 62, 65], [45, 62, 66]] := by
    decide +kernel
  obtain ⟨s, hs, hwrites⟩ := Option.map_eq_some_iff.mp hrun
  have hinit : system.init (start 8 3 0) := ⟨8, 3, 0, rfl⟩
  exact ⟨s, System.exec_of_guard hs, hwrites,
    delivered_in_order ((System.Reach.init hinit).exec_guard hs) 1⟩

/-- A client resets its connection after the welcome message: the `read` fails, and
the same event calls the left over welcome handler, whose `write` succeeds. -/
def resetRun : List Act :=
  [.wait [(3, ⟨true, false, false, false⟩)] 0, .dispatch ⟨some 5, .error, .error⟩, .done,
    .wait [(5, ⟨false, true, false, false⟩)] 0, .dispatch ⟨none, .error, .all⟩, .done,
    .wait [(5, ⟨true, false, false, true⟩)] 0, .dispatch ⟨none, .error, .all⟩]

/-- A client sends two chunks and hangs up while the echo of the first one waits: the
left over read handler reads the second over it. -/
def replacedRun : List Act :=
  [.wait [(3, ⟨true, false, false, false⟩)] 0, .dispatch ⟨some 5, .error, .error⟩, .done,
    .wait [(5, ⟨false, true, false, false⟩)] 0, .dispatch ⟨none, .error, .all⟩, .done,
    .wait [(5, ⟨true, false, false, false⟩)] 0, .dispatch ⟨none, .data [65], .error⟩, .done,
    .wait [(5, ⟨false, true, false, true⟩)] 0, .dispatch ⟨none, .data [66], .all⟩]

/-- What a run leaves of the first client. -/
lemma exists_run (run : List Act) (writes reads : List (List UInt8))
    (hwhole : ∀ act ∈ run, WholeWrites act)
    (hrun : (system.exec (start 8 3 0) run).map
      (fun s => (s.server.app.writes 1, s.server.app.reads 1)) = some (writes, reads)) :
    ∃ s, system.Reach (fun _ act => WholeWrites act) s ∧
      s.server.app.writes 1 = writes ∧ s.server.app.reads 1 = reads := by
  obtain ⟨s, hs, heq⟩ := Option.map_eq_some_iff.mp hrun
  obtain ⟨hwrites, hreads⟩ := Prod.mk.inj heq
  exact ⟨s, System.Reach.exec (.init ⟨8, 3, 0, rfl⟩) (fun _ => hwhole) hs, hwrites, hreads⟩

/-- One client gets the welcome message twice, and another one never gets the echo of its
first chunk. -/
theorem welcome_sent_twice :
    (∃ s, system.Reach (fun _ act => WholeWrites act) s ∧
      s.server.app.writes 1 = [welcome, welcome] ∧
      ¬ Delivered (s.server.app.reads 1) (s.server.app.writes 1)) ∧
    ∃ s, system.Reach (fun _ act => WholeWrites act) s ∧
      s.server.app.reads 1 = [[65], [66]] ∧ s.server.app.writes 1 = [welcome, echo [66]] ∧
      ¬ Delivered (s.server.app.reads 1) (s.server.app.writes 1) := by
  obtain ⟨s, hs, hwrites, hreads⟩ := exists_run resetRun [welcome, welcome] []
    (by decide) (by decide +kernel)
  obtain ⟨s', hs', hwrites', hreads'⟩ := exists_run replacedRun [welcome, echo [66]]
    [[65], [66]] (by decide) (by decide +kernel)
  refine ⟨⟨s, hs, hwrites, ?_⟩, s', hs', hreads', hwrites', ?_⟩
  · rw [hwrites, hreads]
    exact fun h => absurd h.1.length_le (by decide)
  · rw [hwrites', hreads']
    exact fun h => absurd h.1 (by decide)

end ShareBike.Echo
