import ShareBike.HttpRequestFields
import ShareBike.HttpServer

/-!
# The interest set of the HTTP server

Every registered pointer is the live `ConnectStat` of its descriptor, and every live
`ConnectStat` is registered, as long as no request writes over `_ev.data`. So no
handler gets a freed `ConnectStat`, and a response has a handler.
-/
namespace ShareBike.Http
open ShareBike.Lib

/-- What the `ConnectStat` of a client holds that is registered with `events` and `p`. -/
structure EntryOk (code : Code) (stat : ConnectStat) (events p : ℕ) : Prop where
  data : stat.get .data = p
  mask : events = EPOLLIN ∨ events = EPOLLOUT ∧ ∃ h, stat.get .handler = code.addr h

/-- The invariant, on the heap, the open descriptors and the interest set, with the
listening socket `l` and the epoll descriptor `m`. -/
structure Inv (code : Code) (l m : ℕ) (heap : ℕ → Option ConnectStat) (o : ℕ → Bool)
    (i : ℕ → Option (ℕ × ℕ)) : Prop where
  zero_open : o 0 = true
  listen_open : o l = true
  main_open : o m = true
  listen : ∃ p, i l = some (EPOLLIN, p)
  base : ∀ fd r, i fd = some r → fd ≠ l → fd ≠ 0 ∧ fd ≠ m
  entry : ∀ fd events p, i fd = some (events, p) → o fd = true ∧
    ∃ stat, heap p = some stat ∧ stat.get .fd = fd ∧ (fd ≠ l → EntryOk code stat events p)
  owner : ∀ p stat, heap p = some stat → ∃ events, i (stat.get .fd) = some (events, p)
  client : ∀ fd, o fd = true → fd ≠ 0 → fd ≠ m → (i fd).isSome

/-- The invariant of a server. -/
abbrev Inv.Of (code : Code) (s : Server) : Prop :=
  Inv code s.listenSock s.mainEpfd s.heap s.isOpen s.interest

variable {code : Code} {l m fd p events old : ℕ} {heap : ℕ → Option ConnectStat} {o : ℕ → Bool}
  {i : ℕ → Option (ℕ × ℕ)} {stat stat' : ConnectStat} {s s' : Server}

/-- The pointers in the interest set tell the descriptors apart. -/
lemma Inv.inj (h : Inv code l m heap o i) {fd' events' : ℕ} (hf : i fd = some (events, p))
    (hf' : i fd' = some (events', p)) : fd = fd' := by
  obtain ⟨-, stat, hp, hfd, -⟩ := h.entry fd events p hf
  obtain ⟨-, stat', hp', hfd', -⟩ := h.entry fd' events' p hf'
  rw [hp] at hp'
  cases hp'
  exact hfd.symm.trans hfd'

lemma Inv.ne_of_owner (h : Inv code l m heap o i) (hp : heap p = some stat) {q : ℕ}
    (hq : heap q = some stat') (hne : q ≠ p) : stat'.get .fd ≠ stat.get .fd := by
  obtain ⟨e, he⟩ := h.owner p stat hp
  obtain ⟨e', he'⟩ := h.owner q stat' hq
  intro hfd
  rw [hfd, he] at he'
  cases he'
  exact hne rfl

/-- A client's `ConnectStat` and its registration change together. -/
lemma Inv.rearm (h : Inv code l m heap o i) (hp : heap p = some stat) (hl : stat.get .fd ≠ l)
    (hfd : stat'.get .fd = stat.get .fd) (hok : EntryOk code stat' events p) :
    Inv code l m (Function.update heap p (some stat')) o
      (Function.update i (stat.get .fd) (some (events, p))) := by
  obtain ⟨old, hold⟩ := h.owner p stat hp
  refine { h with listen := ?_, base := ?_, entry := ?_, owner := ?_, client := ?_ }
  · rw [Function.update_of_ne hl.symm]
    exact h.listen
  · intro g r hg hne
    by_cases hgf : g = stat.get .fd
    · rw [hgf]
      exact h.base _ _ hold hl
    · rw [Function.update_of_ne hgf] at hg
      exact h.base g r hg hne
  · intro g e q hg
    by_cases hgf : g = stat.get .fd
    · subst hgf
      rw [Function.update_self] at hg
      cases hg
      exact ⟨(h.entry _ _ _ hold).1, stat', Function.update_self _ _ _, hfd, fun _ => hok⟩
    · rw [Function.update_of_ne hgf] at hg
      obtain ⟨hopen, st, hq, hst, hent⟩ := h.entry g e q hg
      have hqp : q ≠ p := by
        rintro rfl
        exact hgf (h.inj hg hold)
      rw [Function.update_of_ne hqp]
      exact ⟨hopen, st, hq, hst, hent⟩
  · intro q st hq
    by_cases hqp : q = p
    · subst hqp
      rw [Function.update_self] at hq
      cases hq
      rw [hfd, Function.update_self]
      exact ⟨events, rfl⟩
    · rw [Function.update_of_ne hqp] at hq
      rw [Function.update_of_ne (h.ne_of_owner hp hq hqp)]
      exact h.owner q st hq
  · intro g hg h0 hm
    by_cases hgf : g = stat.get .fd
    · rw [hgf, Function.update_self]
      rfl
    · rw [Function.update_of_ne hgf]
      exact h.client g hg h0 hm

/-- A client is removed, closed and freed. -/
lemma Inv.close (h : Inv code l m heap o i) (hp : heap p = some stat) (hl : stat.get .fd ≠ l) :
    Inv code l m (Function.update heap p none) (Function.update o (stat.get .fd) false)
      (Function.update i (stat.get .fd) none) := by
  obtain ⟨old, hold⟩ := h.owner p stat hp
  obtain ⟨h0, hm⟩ := h.base _ _ hold hl
  have hreg : ∀ g r, Function.update i (stat.get .fd) none g = some r →
      g ≠ stat.get .fd ∧ i g = some r := by
    intro g r hg
    by_cases hgf : g = stat.get .fd
    · rw [hgf, Function.update_self] at hg
      cases hg
    · rw [Function.update_of_ne hgf] at hg
      exact ⟨hgf, hg⟩
  constructor
  · rw [Function.update_of_ne h0.symm]
    exact h.zero_open
  · rw [Function.update_of_ne hl.symm]
    exact h.listen_open
  · rw [Function.update_of_ne hm.symm]
    exact h.main_open
  · rw [Function.update_of_ne hl.symm]
    exact h.listen
  · intro g r hg hne
    exact h.base g r (hreg g r hg).2 hne
  · intro g e q hg
    obtain ⟨hgf, hg⟩ := hreg g _ hg
    obtain ⟨hopen, st, hq, hst, hent⟩ := h.entry g e q hg
    have hqp : q ≠ p := by
      rintro rfl
      exact hgf (h.inj hg hold)
    rw [Function.update_of_ne hgf, Function.update_of_ne hqp]
    exact ⟨hopen, st, hq, hst, hent⟩
  · intro q st hq
    by_cases hqp : q = p
    · subst hqp
      rw [Function.update_self] at hq
      cases hq
    · rw [Function.update_of_ne hqp] at hq
      rw [Function.update_of_ne (h.ne_of_owner hp hq hqp)]
      exact h.owner q st hq
  · intro g hg hg0 hgm
    have hgf : g ≠ stat.get .fd := by
      rintro rfl
      rw [Function.update_self] at hg
      cases hg
    rw [Function.update_of_ne hgf] at hg ⊢
    exact h.client g hg hg0 hgm

/-- An accepted client is registered for reading, with a new `ConnectStat`. -/
lemma Inv.connect (h : Inv code l m heap o i) (hfree : heap p = none) (hnew : o fd = false)
    (hfd : stat.get .fd = fd) (hdata : stat.get .data = p) :
    Inv code l m (Function.update heap p (some stat)) (Function.update o fd true)
      (Function.update i fd (some (EPOLLIN, p))) := by
  have hne : ∀ g, o g = true → g ≠ fd := by
    rintro g hg rfl
    rw [hnew] at hg
    cases hg
  have hkeep : ∀ g, o g = true → Function.update o fd true g = true := by
    intro g hg
    rw [Function.update_of_ne (hne g hg)]
    exact hg
  constructor
  · exact hkeep 0 h.zero_open
  · exact hkeep l h.listen_open
  · exact hkeep m h.main_open
  · rw [Function.update_of_ne (hne l h.listen_open)]
    exact h.listen
  · intro g r hg hgl
    by_cases hgf : g = fd
    · rw [hgf]
      exact ⟨(hne 0 h.zero_open).symm, (hne m h.main_open).symm⟩
    · rw [Function.update_of_ne hgf] at hg
      exact h.base g r hg hgl
  · intro g e q hg
    by_cases hgf : g = fd
    · subst hgf
      rw [Function.update_self] at hg
      cases hg
      rw [Function.update_self, Function.update_self]
      exact ⟨rfl, stat, rfl, hfd, fun _ => ⟨hdata, .inl rfl⟩⟩
    · rw [Function.update_of_ne hgf] at hg
      obtain ⟨hopen, st, hq, hst, hent⟩ := h.entry g e q hg
      have hqp : q ≠ p := by
        rintro rfl
        rw [hfree] at hq
        cases hq
      rw [Function.update_of_ne hqp]
      exact ⟨hkeep g hopen, st, hq, hst, hent⟩
  · intro q st hq
    by_cases hqp : q = p
    · subst hqp
      rw [Function.update_self] at hq
      cases hq
      rw [hfd, Function.update_self]
      exact ⟨EPOLLIN, rfl⟩
    · rw [Function.update_of_ne hqp] at hq
      obtain ⟨e, he⟩ := h.owner q st hq
      rw [Function.update_of_ne (hne _ (h.entry _ _ _ he).1)]
      exact ⟨e, he⟩
  · intro g hg hg0 hgm
    by_cases hgf : g = fd
    · rw [hgf, Function.update_self]
      rfl
    · rw [Function.update_of_ne hgf] at hg ⊢
      exact h.client g hg hg0 hgm

/-- The other `ConnectStat`s and their registrations are left alone. -/
def Frame (p : ℕ) (s s' : Server) : Prop :=
  ∀ q stat, q ≠ p → s.heap q = some stat →
    s'.heap q = some stat ∧ s'.interest (stat.get .fd) = s.interest (stat.get .fd)

lemma Frame.refl (p : ℕ) (s : Server) : Frame p s s := fun _ _ _ hq => ⟨hq, rfl⟩

/-- An invariant that is kept for the event of the client `p`. -/
structure Kept (code : Code) (p : ℕ) (s s' : Server) : Prop where
  inv : Inv.Of code s'
  epfd : s'.serverEpfd = s'.mainEpfd
  frame : Frame p s s'

lemma epollCtl_interest (he : s.serverEpfd = s.mainEpfd) (ho : s.isOpen fd = true) (op : CtlOp)
    (ev : ℕ × ℕ) : s.epollCtl s.serverEpfd op fd ev =
      { s with interest := Lib.epollCtl s.interest op fd ev true } := by
  simp [Server.epollCtl, he, ho]

/-- The registration of a client's changed `ConnectStat`. -/
lemma Kept.register (h : Inv.Of code s) (he : s.serverEpfd = s.mainEpfd)
    (hp : s.heap p = some stat) (hl : stat.get .fd ≠ s.listenSock)
    (hfd : stat'.get .fd = stat.get .fd) (hok : EntryOk code stat' (stat'.get .events) p) :
    Kept code p s ((s.setStat p stat').register .EPOLL_CTL_MOD stat') := by
  obtain ⟨old, hold⟩ := h.owner p stat hp
  have hopen := (h.entry _ _ _ hold).1
  have hresult : (s.setStat p stat').register .EPOLL_CTL_MOD stat' = { s with
      heap := Function.update s.heap p (some stat')
      interest := Function.update s.interest (stat.get .fd) (some (stat'.get .events, p)) } := by
    rw [Server.register, hfd, hok.data, epollCtl_interest (s := s.setStat p stat') he hopen]
    have hmod := epollCtl_mod hold (stat'.get .events, p)
    rw [← hmod]
    rfl
  rw [hresult]
  refine ⟨h.rearm hp hl hfd hok, he, ?_⟩
  intro q st hq hst
  constructor
  · exact (Function.update_of_ne hq _ _).trans hst
  · exact Function.update_of_ne (h.ne_of_owner hp hst hq) _ _

lemma Kept.respond (h : Inv.Of code s) (he : s.serverEpfd = s.mainEpfd)
    (hp : s.heap p = some stat) (hl : stat.get .fd ≠ s.listenSock)
    (hdata : stat.get .data = p) (page : Page) : Kept code p s (s.respond p stat page) := by
  have hev : (stat.set .events EPOLLIN).get .events = EPOLLIN := get_set_self (by decide)
  have hok : EntryOk code (stat.set .events EPOLLIN)
      ((stat.set .events EPOLLIN).get .events) p := by
    refine ⟨?_, .inl hev⟩
    rw [get_set_of_ne (by decide)]
    exact hdata
  have hkept := Kept.register (s := { s with sent := (stat.get .fd, page) :: s.sent }) h he hp hl
    (get_set_of_ne (by decide)) hok
  exact ⟨hkept.inv, hkept.epfd, hkept.frame⟩

/-- The stores of a request are those that end up in the client's `ConnectStat`. -/
lemma doHttpRequest_heap (hp : s.heap p = some stat) (bytes : List UInt8)
    (hs : s.doHttpRequest code (.data bytes) p = .ok s') :
    s'.heap p = some (stat.storeAll (storesOf code (cstr bytes))) := by
  rw [Server.doHttpRequest, hp] at hs
  dsimp only at hs
  rw [storesOf]
  cases hr : parse (cstr bytes) with
  | none =>
    rw [hr] at hs
    cases hs
  | some r =>
    rw [hr] at hs
    cases hs
    exact Function.update_self _ _ _

/-- A request leaves the client registered for its response, or removed and closed;
or the process ends in a search from `NULL`. -/
lemma doHttpRequest_spec (h : Inv.Of code s) (he : s.serverEpfd = s.mainEpfd)
    (hp : s.heap p = some stat) (hl : stat.get .fd ≠ s.listenSock) (hdata : stat.get .data = p)
    {read : ReadRes} (hfits : ∀ bytes, read = .data bytes → Fits 131 67 (cstr bytes)) :
    s.doHttpRequest code read p = .error .nullString ∨
      ∃ s', s.doHttpRequest code read p = .ok s' ∧ Kept code p s s' := by
  rw [Server.doHttpRequest, hp]
  cases read with
  | data bytes =>
    dsimp only
    cases hr : parse (cstr bytes) with
    | none => exact .inl rfl
    | some r =>
      obtain ⟨hname, hage⟩ := fits_iff.mp (hfits bytes rfl) r hr
      refine .inr ⟨_, rfl, Kept.register h he hp hl (get_fd_stores r)
        ⟨?_, .inr ⟨?_, r.handler, ?_⟩⟩⟩
      · rw [get_data_stores hname hage]
        exact hdata
      · exact get_events_stores r
      · exact get_handler_stores r
  | closed =>
    obtain ⟨old, hold⟩ := h.owner p stat hp
    have hresult : ((s.epollCtl s.serverEpfd .EPOLL_CTL_DEL (stat.get .fd) (0, 0)).close
        (stat.get .fd)).free p = { s with
          heap := Function.update s.heap p none
          isOpen := Function.update s.isOpen (stat.get .fd) false
          interest := Function.update s.interest (stat.get .fd) none } := by
      rw [epollCtl_interest he (h.entry _ _ _ hold).1, epollCtl_del hold]
      simp only [Server.close, Server.free, Function.update_idem]
    refine .inr ⟨_, rfl, ?_⟩
    rw [hresult]
    refine ⟨h.close hp hl, he, ?_⟩
    intro q st hq hst
    constructor
    · exact (Function.update_of_ne hq _ _).trans hst
    · exact Function.update_of_ne (h.ne_of_owner hp hst hq) _ _
  | error => exact .inr ⟨s, rfl, h, he, .refl p s⟩

/-- A response is made by the handler that the request has set. -/
lemma doHttpRespone_spec (h : Inv.Of code s) (he : s.serverEpfd = s.mainEpfd)
    (hp : s.heap p = some stat) (hl : stat.get .fd ≠ s.listenSock) (hdata : stat.get .data = p)
    {hdl : Handler} (hh : stat.get .handler = code.addr hdl) :
    ∃ s', s.doHttpRespone code p = .ok s' ∧ Kept code p s s' := by
  rw [Server.doHttpRespone, hp]
  dsimp only
  rw [hh]
  cases hdl with
  | welcomeResponseHandler =>
    rw [if_pos rfl]
    exact ⟨_, rfl, .respond h he hp hl hdata _⟩
  | commitResponeHandler =>
    rw [if_neg code.ne.symm, if_pos rfl]
    exact ⟨_, rfl, .respond h he hp hl hdata _⟩

/-- No report for a descriptor that is armed for reading has the other bit. -/
lemma Reported.not_out (h : Reported events EPOLLIN) : events &&& EPOLLOUT = 0 := by
  rw [← h.2, Nat.and_assoc]
  exact Nat.and_zero _

lemma connectHandle_spec (h : Inv.Of code s) (he : s.serverEpfd = s.mainEpfd) {q : ℕ}
    (hnew : s.isOpen fd = false) (hfd : fd < 2 ^ 31) (hq : s.heap q = none) (hlt : q < 2 ^ 64) :
    Kept code p s (Server.connectHandle
      { s with isOpen := Function.update s.isOpen fd true } fd q) := by
  set new := ((statInit fd).set .events EPOLLIN).set .data q with hdef
  have hdata : new.get .data = q := get_set_self hlt
  have hev : new.get .events = EPOLLIN := by
    rw [hdef, get_set_of_ne (by decide), get_set_self (by decide)]
  have hnfd : new.get .fd = fd := by
    rw [hdef, get_set_of_ne (by decide), get_set_of_ne (by decide)]
    apply get_statInit_fd
    exact Nat.lt_trans hfd (by decide)
  have hnone : s.interest fd = none := by
    by_contra hsome
    obtain ⟨⟨e, r⟩, hr⟩ := Option.ne_none_iff_exists'.mp hsome
    have hopen := (h.entry fd e r hr).1
    rw [hnew] at hopen
    cases hopen
  have hresult : Server.connectHandle
      { s with isOpen := Function.update s.isOpen fd true } fd q = { s with
        heap := Function.update s.heap q (some new)
        isOpen := Function.update s.isOpen fd true
        interest := Function.update s.interest fd (some (EPOLLIN, q)) } := by
    set t : Server := { s with isOpen := Function.update s.isOpen fd true } with htdef
    have hopen : (t.setStat q new).isOpen fd = true := Function.update_self _ _ _
    have hadd := epollCtl_add hnone (EPOLLIN, q)
    simp only [Server.connectHandle, ← hdef, hev, hdata]
    refine (epollCtl_interest (s := t.setStat q new) he hopen _ _).trans ?_
    rw [← hadd]
    rfl
  rw [hresult]
  refine ⟨h.connect hq hnew hnfd hdata, he, ?_⟩
  intro r st hr hst
  obtain ⟨e, hreg⟩ := h.owner r st hst
  have hopen := (h.entry _ _ _ hreg).1
  have hne : st.get .fd ≠ fd := by
    intro hf
    rw [hf, hnew] at hopen
    cases hopen
  have hrq : r ≠ q := by
    rintro rfl
    rw [hq] at hst
    cases hst
  constructor
  · exact (Function.update_of_ne hrq _ _).trans hst
  · exact Function.update_of_ne hne _ _

/-- An event with the live pointer of its descriptor keeps the invariant, or ends the
process in a search from `NULL`. -/
lemma handleEvent_spec (h : Inv.Of code s) (he : s.serverEpfd = s.mainEpfd)
    (hp : s.heap p = some stat) {armed : ℕ} (hreg : s.interest (stat.get .fd) = some (armed, p))
    (hrep : Reported events armed) {sys : Sys} (hposs : sys.Possible s)
    (hfits : ∀ bytes, sys.read = .data bytes → Fits 131 67 (cstr bytes)) :
    handleEvent code sys events p s = .error .nullString ∨
      ∃ s', handleEvent code sys events p s = .ok s' ∧ Kept code p s s' := by
  have hsame : Kept code p s s := ⟨h, he, .refl p s⟩
  rw [handleEvent, hp]
  dsimp only
  by_cases hl : stat.get .fd = s.listenSock
  · rw [if_pos ⟨hl, hrep.1⟩]
    cases hacc : sys.accept with
    | none => exact .inr ⟨s, rfl, hsame⟩
    | some newFd =>
      obtain ⟨hnew, hlt⟩ := hposs.1 newFd hacc
      have hpos : newFd > 0 := by
        apply Nat.pos_of_ne_zero
        rintro rfl
        rw [h.zero_open] at hnew
        cases hnew
      refine .inr ⟨_, rfl, ?_⟩
      rw [if_pos hpos]
      exact connectHandle_spec h he hnew hlt hposs.2.1.1 hposs.2.1.2.2
  · obtain ⟨-, st, hst, -, hent⟩ := h.entry _ _ _ hreg
    rw [hp] at hst
    cases hst
    have hok := hent hl
    rw [if_neg fun hn => hl hn.1]
    by_cases hin : events &&& EPOLLIN ≠ 0
    · rw [if_pos hin]
      exact doHttpRequest_spec h he hp hl hok.data hfits
    · rw [if_neg hin]
      by_cases hout : events &&& EPOLLOUT ≠ 0
      · rw [if_pos hout]
        rcases hok.mask with rfl | ⟨-, hdl, hh⟩
        · exact absurd hrep.not_out hout
        · exact .inr (doHttpRespone_spec h he hp hl hok.data hh)
      · rw [if_neg hout]
        exact .inr ⟨s, rfl, hsame⟩

/-- The events that are still to be handled carry the live pointers of registered
descriptors, each once. -/
def RevsOk (s : Server) (revs : List (ℕ × ℕ)) : Prop :=
  (revs.map Prod.snd).Nodup ∧ ∀ e ∈ revs, ∃ stat armed, s.heap e.2 = some stat ∧
    s.interest (stat.get .fd) = some (armed, e.2) ∧ Reported e.1 armed

structure Served (code : Code) (s : State) : Prop where
  inv : Inv.Of code s.server
  epfd : s.server.serverEpfd = s.server.mainEpfd
  revs : ∀ revs ∈ s.revs, RevsOk s.server revs
  fault : s.fault = none ∨ s.fault = some .nullString

/-- What `epoll_wait` hands to the program. -/
lemma Batch.revsOk (h : Inv.Of code s) {evs : List (ℕ × ℕ)} (hb : Batch s.interest evs) :
    RevsOk s (revsOf s.interest evs) := by
  obtain ⟨-, hnodup, hevs⟩ := hb
  have hmem : ∀ e ∈ revsOf s.interest evs, ∃ fd armed, (fd, e.1) ∈ evs ∧
      s.interest fd = some (armed, e.2) ∧ Reported e.1 armed := by
    intro e he
    obtain ⟨⟨fd, ev⟩, hev, hmap⟩ := List.mem_filterMap.mp he
    obtain ⟨⟨armed, q⟩, hreg, heq⟩ := Option.map_eq_some_iff.mp hmap
    obtain ⟨r, hr, hrep⟩ := hevs _ hev
    rw [hreg] at hr
    cases hr
    cases heq
    exact ⟨fd, armed, hev, hreg, hrep⟩
  constructor
  · clear hmem hevs
    induction evs with
    | nil => exact List.nodup_nil
    | cons e evs ih =>
      rw [List.map_cons, List.nodup_cons] at hnodup
      cases hreg : s.interest e.1 with
      | none =>
        rw [revsOf, List.filterMap_cons_none (by rw [hreg]; rfl)]
        exact ih hnodup.2
      | some r =>
        rw [revsOf, List.filterMap_cons_some (by rw [hreg]; rfl), List.map_cons, List.nodup_cons]
        refine ⟨?_, ih hnodup.2⟩
        intro hin
        obtain ⟨e', he', hsnd⟩ := List.mem_map.mp hin
        obtain ⟨⟨fd, ev⟩, hev, hmap⟩ := List.mem_filterMap.mp he'
        obtain ⟨⟨armed, q⟩, hreg', heq⟩ := Option.map_eq_some_iff.mp hmap
        cases heq
        have hq : q = r.2 := hsnd
        rw [hq] at hreg'
        have hfd : e.1 = fd := h.inj hreg hreg'
        exact hnodup.1 (List.mem_map.mpr ⟨_, hev, hfd.symm⟩)
  · intro e he
    obtain ⟨fd, armed, -, hreg, hrep⟩ := hmem e he
    obtain ⟨-, stat, hq, hfd, -⟩ := h.entry _ _ _ hreg
    rw [← hfd] at hreg
    exact ⟨stat, armed, hq, hreg, hrep⟩

lemma RevsOk.frame {revs : List (ℕ × ℕ)} (h : RevsOk s ((events, p) :: revs))
    (hf : Frame p s s') : RevsOk s' revs := by
  obtain ⟨hnodup, hrevs⟩ := h
  rw [List.map_cons, List.nodup_cons] at hnodup
  refine ⟨hnodup.2, fun e he => ?_⟩
  obtain ⟨stat, armed, hq, hreg, hrep⟩ := hrevs e (List.mem_cons_of_mem _ he)
  have hne : e.2 ≠ p := by
    intro hep
    exact hnodup.1 (List.mem_map.mpr ⟨e, he, hep⟩)
  obtain ⟨hq', hreg'⟩ := hf e.2 stat hne hq
  rw [← hreg'] at hreg
  exact ⟨stat, armed, hq', hreg, hrep⟩

/-- No request that is read has a run that reaches `_ev.data`. -/
def FitsRead : Act → Prop
  | .handle sys =>
    match sys.read with
    | .data bytes => Fits 131 67 (cstr bytes)
    | _ => True
  | _ => True

instance : (act : Act) → Decidable (FitsRead act)
  | .handle ⟨_, _, .data bytes⟩ => inferInstanceAs (Decidable (Fits 131 67 (cstr bytes)))
  | .handle ⟨_, _, .closed⟩ | .handle ⟨_, _, .error⟩ => .isTrue trivial
  | .wait _ | .done => .isTrue trivial

lemma FitsRead.data {sys : Sys} (h : FitsRead (.handle sys)) {bytes : List UInt8}
    (hr : sys.read = .data bytes) : Fits 131 67 (cstr bytes) := by
  simp only [FitsRead, hr] at h
  exact h

lemma Served.step {s s' : State} (h : Served code s) {act : Act} (hfits : FitsRead act)
    (hs : step code s act = some s') : Served code s' := by
  rw [Http.step.eq_def] at hs
  split at hs
  · split_ifs at hs with hb
    cases hs
    refine ⟨h.inv, h.epfd, fun revs hr => ?_, h.fault⟩
    cases hr
    exact hb.revsOk h.inv
  · rename_i sys events p revs hfault hrevs
    split_ifs at hs with hposs
    have hrevsOk := h.revs _ hrevs
    obtain ⟨stat, armed, hp, hreg, hrep⟩ := hrevsOk.2 (events, p) List.mem_cons_self
    rcases handleEvent_spec h.inv h.epfd hp hreg hrep hposs (fun _ hr => hfits.data hr) with
      herr | ⟨server, hok, hkept⟩
    · rw [herr] at hs
      cases hs
      exact ⟨h.inv, h.epfd, h.revs, .inr rfl⟩
    · rw [hok] at hs
      cases hs
      refine ⟨hkept.inv, hkept.epfd, fun revs hr => ?_, .inl rfl⟩
      cases hr
      exact hrevsOk.frame hkept.frame
  · cases hs
    refine ⟨h.inv, h.epfd, fun revs hr => ?_, h.fault⟩
    cases hr
  · cases hs

/-- A map with one entry. -/
lemma update_none_eq_some {E : Type} {k x : ℕ} {b c : E} :
    Function.update (fun _ => none) k (some b) x = some c ↔ x = k ∧ b = c := by
  rw [Function.update_apply]
  split_ifs with h <;> simp [h]

lemma inv_start {listenSock epfd : ℕ} (hc : Created listenSock epfd p) :
    Inv code listenSock epfd (Function.update (fun _ => none) p (some (statInit listenSock)))
      (fun fd => fd = 0 ∨ fd = listenSock ∨ fd = epfd)
      (Function.update (fun _ => none) listenSock (some (EPOLLIN, p))) := by
  have hfd : (statInit listenSock).get .fd = listenSock := by
    apply get_statInit_fd
    exact Nat.lt_trans hc.listen_lt (by decide)
  refine ⟨by simp, by simp, by simp, ⟨p, Function.update_self _ _ _⟩, ?_, ?_, ?_, ?_⟩
  · intro fd r hr hl
    exact absurd (update_none_eq_some.mp hr).1 hl
  · intro fd events q hr
    obtain ⟨rfl, hq⟩ := update_none_eq_some.mp hr
    cases hq
    refine ⟨by simp, statInit fd, Function.update_self _ _ _, hfd, fun hl => absurd rfl hl⟩
  · intro q stat hq
    obtain ⟨rfl, rfl⟩ := update_none_eq_some.mp hq
    rw [hfd]
    exact ⟨EPOLLIN, Function.update_self _ _ _⟩
  · intro fd ho h0 hm
    have hl : fd = listenSock := by
      rw [decide_eq_true_eq] at ho
      omega
    rw [hl, Function.update_self]
    rfl

lemma served_start {listenSock epfd : ℕ} (hc : Created listenSock epfd p) :
    Served code (start listenSock epfd epfd p) :=
  ⟨inv_start hc, rfl, fun _ hr => (by cases hr), .inl rfl⟩

/-- What is promised of a state: registered pointers are live and their descriptor's
own; a client is registered for one direction; it is armed for writing only with a
handler; a `ConnectStat` is freed exactly when its descriptor is removed and closed;
and no handler has got a dead `ConnectStat`, nor a call a bad handler. -/
structure Consistent (s : State) : Prop where
  registered_live : ∀ fd events p, s.server.interest fd = some (events, p) →
    ∃ stat, s.server.heap p = some stat ∧ stat.get .fd = fd
  one_direction : ∀ fd, s.server.IsClient fd → ∃ events p,
    s.server.interest fd = some (events, p) ∧ (events = EPOLLIN ∨ events = EPOLLOUT)
  handler_set : ∀ fd p, s.server.interest fd = some (EPOLLOUT, p) →
    ∃ stat, s.server.heap p = some stat ∧ stat.get .handler ≠ 0
  live_registered : ∀ p stat, s.server.heap p = some stat →
    s.server.isOpen (stat.get .fd) = true ∧
      ∃ events, s.server.interest (stat.get .fd) = some (events, p)
  no_fault : s.fault = none ∨ s.fault = some .nullString

/-- In every run whose requests stay clear of `_ev.data`, every state is consistent. -/
theorem consistent_of_fits (code : Code) {s : State}
    (h : (system code).Reach (fun _ act => FitsRead act) s) : Consistent s := by
  have hserved : Served code s := by
    refine h.invariant ?_ ?_
    · rintro s ⟨listenSock, epfd, p, hc, rfl⟩
      exact served_start hc
    · intro s act s' hserved hfits hs
      exact hserved.step hfits hs
  have hinv := hserved.inv
  constructor
  · intro fd events p hreg
    obtain ⟨-, stat, hp, hfd, -⟩ := hinv.entry fd events p hreg
    exact ⟨stat, hp, hfd⟩
  · intro fd hc
    obtain ⟨hopen, h0, hl, hm⟩ := hc
    obtain ⟨⟨events, p⟩, hreg⟩ := Option.isSome_iff_exists.mp (hinv.client fd hopen h0 hm)
    obtain ⟨-, stat, -, -, hok⟩ := hinv.entry fd events p hreg
    exact ⟨events, p, hreg, (hok hl).mask.imp id And.left⟩
  · intro fd p hreg
    have hl : fd ≠ s.server.listenSock := by
      rintro rfl
      obtain ⟨q, hq⟩ := hinv.listen
      rw [hreg] at hq
      cases hq
    obtain ⟨-, stat, hp, -, hok⟩ := hinv.entry fd _ p hreg
    rcases (hok hl).mask with hin | ⟨-, hdl, hh⟩
    · cases hin
    · refine ⟨stat, hp, ?_⟩
      rw [hh]
      exact code.ne_null hdl
  · intro p stat hp
    obtain ⟨events, hreg⟩ := hinv.owner p stat hp
    exact ⟨(hinv.entry _ _ _ hreg).1, events, hreg⟩
  · exact hserved.fault

/-- A client is accepted, commits the name `a`, and gets its page. -/
def commitRun : List Act :=
  [.wait [(3, EPOLLIN)], .handle ⟨some 5, 0x2000, .error⟩, .done,
    .wait [(5, EPOLLIN)], .handle ⟨none, 0x3000, .data (longName 1)⟩, .done,
    .wait [(5, EPOLLOUT)], .handle ⟨none, 0x3000, .error⟩]

theorem consistent_of_fits_commit :
    ∃ s, (system sampleCode).exec (start 3 4 4 0x1000) commitRun = some s ∧
      s.server.sent = [(5, .commit [97] [])] ∧ Consistent s := by
  have hrun : (((system sampleCode).guard fun _ act => FitsRead act).exec (start 3 4 4 0x1000)
      commitRun).map (·.server.sent) = some [(5, .commit [97] [])] := by
    decide +kernel
  obtain ⟨s, hs, hsent⟩ := Option.map_eq_some_iff.mp hrun
  have hinit : (system sampleCode).init (start 3 4 4 0x1000) :=
    ⟨3, 4, 0x1000, ⟨by decide, by decide, by decide, by decide, by decide⟩, rfl⟩
  exact ⟨s, System.exec_of_guard hs, hsent,
    consistent_of_fits sampleCode ((System.Reach.init hinit).exec_guard hs)⟩

/-- A client commits a name of 140 letters. -/
def overflowRun : List Act :=
  [.wait [(3, EPOLLIN)], .handle ⟨some 5, 0x2000, .error⟩, .done,
    .wait [(5, EPOLLIN)], .handle ⟨none, 0x3000, .data (longName 140)⟩]

/-- Then eight of the letters are registered as the pointer of the descriptor. -/
theorem pointer_overwritten :
    ∃ s, (system sampleCode).Reachable s ∧
      s.server.interest 5 = some (EPOLLOUT, 0x6161616161616161) ∧ ¬ Consistent s := by
  have hrun : ((system sampleCode).exec (start 3 4 4 0x1000) overflowRun).map
      (fun s => (s.server.interest 5, s.server.heap 0x6161616161616161)) =
        some (some (EPOLLOUT, 0x6161616161616161), none) := by
    decide +kernel
  obtain ⟨s, hs, heq⟩ := Option.map_eq_some_iff.mp hrun
  obtain ⟨hreg, hdead⟩ := Prod.mk.inj heq
  have hinit : (system sampleCode).init (start 3 4 4 0x1000) :=
    ⟨3, 4, 0x1000, ⟨by decide, by decide, by decide, by decide, by decide⟩, rfl⟩
  refine ⟨s, System.Reach.exec (.init hinit) (fun _ _ _ => trivial) hs, hreg, fun hc => ?_⟩
  obtain ⟨stat, hlive, -⟩ := hc.registered_live 5 _ _ hreg
  rw [hdead] at hlive
  cases hlive

end ShareBike.Http
