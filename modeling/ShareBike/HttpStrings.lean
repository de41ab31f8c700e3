import ShareBike.HttpScan
import ShareBike.HttpServerSafety

/-!
# The strings of a connection

What `do_http_request` leaves in `name` and `age`, and the page that is built from it.
A run of no bytes is not copied, so a field that a request leaves out keeps the string
of an earlier request on the connection.
-/
namespace ShareBike.Http
open ShareBike.Lib

/-- The string in a field, up to the end of the field. -/
def ConnectStat.fieldText (stat : ConnectStat) (f : Field) : List UInt8 :=
  cstr (slice stat.bytes f.offset f.size)

/-- Two states hold the same strings in the fields that a request leaves out. -/
structure SameWhereMissing (r : Request) (stat stat' : ConnectStat) : Prop where
  name : r.name = [] → stat.fieldText .name = stat'.fieldText .name
  age : r.age = [] → stat.fieldText .age = stat'.fieldText .age

/-- `do_http_request` reads `bytes` from the client at `p`, leaves the strings `name` and
`age` in its `ConnectStat`, and the next `do_http_respone` builds the page with them. -/
def Answers (code : Code) (s : Server) (p : ℕ) (bytes name age : List UInt8) : Prop :=
  ∃ t stat u, s.doHttpRequest code (.data bytes) p = .ok t ∧ t.heap p = some stat ∧
    stat.text .name = name ∧ stat.text .age = age ∧
    t.doHttpRespone code p = .ok u ∧ u.sent = (stat.get .fd, .commit name age) :: t.sent

variable {code : Code} {stat stat' : ConnectStat} {f g : Field} {run : List UInt8}
  {r : Request} {s s' : Server} {p p' : ℕ}

lemma length_slice_field : (slice stat.bytes f.offset f.size).length = f.size := by
  have hle := f.inside
  have hlen := stat.length_eq
  rw [slice, List.length_take, List.length_drop]
  omega

/-- A string that fills its field goes on in the next one. -/
lemma text_eq (h : g.offset = f.offset + f.size) : stat.text f =
    stat.fieldText f ++ if (stat.fieldText f).length < f.size then [] else stat.text g := by
  have hsplit : stat.bytes.drop f.offset =
      slice stat.bytes f.offset f.size ++ stat.bytes.drop g.offset := by
    rw [h, ← List.drop_drop]
    exact (List.take_append_drop _ _).symm
  have hcstr := cstr_append (slice stat.bytes f.offset f.size) (stat.bytes.drop g.offset)
  rwa [← hsplit, length_slice_field] at hcstr

lemma fieldText_store_of_apart {bytes : List UInt8}
    (h : g.offset + g.size ≤ f.offset ∨ f.offset + bytes.length ≤ g.offset) :
    (stat.store f bytes).fieldText g = stat.fieldText g := by
  rw [ConnectStat.fieldText, ConnectStat.fieldText, slice_store_of_apart h]

lemma fieldText_set_of_ne (v : ℕ) (h : f ≠ g) : (stat.set f v).fieldText g = stat.fieldText g := by
  apply fieldText_store_of_apart
  rw [length_leBytes]
  exact Field.apart h

/-- A copy that reaches a field ends the string in it, or fills it. -/
lemma fieldText_copy (hfg : f.offset ≤ g.offset) (hreach : g.offset ≤ f.offset + run.length) :
    (stat.store f (run ++ [0])).fieldText g =
      cstr ((run.drop (g.offset - f.offset)).take g.size) := by
  have hle := f.inside
  have hlen := stat.length_eq
  have hdrop : (overwrite stat.bytes f.offset (run ++ [0])).drop g.offset =
      run.drop (g.offset - f.offset) ++ 0 :: stat.bytes.drop (f.offset + (run ++ [0]).length) := by
    rw [drop_overwrite (by omega) hfg (by rw [List.length_append]; omega),
      List.drop_append_of_le_length (by omega), List.append_assoc]
    rfl
  rw [ConnectStat.fieldText, ConnectStat.store, slice_take g.inside, slice, hdrop,
    cstr_take_append_nul]

lemma storeAll_copyRun (hrun : run ≠ []) :
    stat.storeAll (copyRun f run) = stat.store f (run ++ [0]) := by
  rw [copyRun, if_neg hrun]
  rfl

lemma storeAll_copyRun_nil : stat.storeAll (copyRun f []) = stat := rfl

/-- What a field held before a run was copied into it does not matter. -/
lemma fieldText_copyRun_self (hrun : run ≠ []) :
    (stat.storeAll (copyRun f run)).fieldText f = cstr (run.take f.size) := by
  rw [storeAll_copyRun hrun, fieldText_copy le_rfl (Nat.le_add_right _ _), Nat.sub_self,
    List.drop_zero]

lemma fieldText_copyRun_of_le (h : g.offset + g.size ≤ f.offset) :
    (stat.storeAll (copyRun f run)).fieldText g = stat.fieldText g := by
  by_cases hrun : run = []
  · rw [hrun, storeAll_copyRun_nil]
  · rw [storeAll_copyRun hrun, fieldText_store_of_apart (.inl h)]

/-- A copy into an earlier field, which may go on into this one. -/
lemma fieldText_copyRun_congr (hfg : f.offset ≤ g.offset)
    (h : stat.fieldText g = stat'.fieldText g) :
    (stat.storeAll (copyRun f run)).fieldText g =
      (stat'.storeAll (copyRun f run)).fieldText g := by
  by_cases hrun : run = []
  · rw [hrun, storeAll_copyRun_nil, storeAll_copyRun_nil, h]
  rw [storeAll_copyRun hrun, storeAll_copyRun hrun]
  by_cases hreach : g.offset ≤ f.offset + run.length
  · rw [fieldText_copy hfg hreach, fieldText_copy hfg hreach]
  · have hafter : f.offset + (run ++ [0]).length ≤ g.offset := by
      rw [List.length_append, List.length_singleton]
      omega
    rw [fieldText_store_of_apart (.inr hafter), fieldText_store_of_apart (.inr hafter), h]

lemma fieldText_stores_name : (stat.storeAll (r.stores code)).fieldText .name =
    (stat.storeAll (copyRun .name r.name)).fieldText .name := by
  rw [storeAll_stores, fieldText_set_of_ne _ (by decide), fieldText_set_of_ne _ (by decide),
    storeAll_append, fieldText_copyRun_of_le (by decide)]

lemma fieldText_stores_age : (stat.storeAll (r.stores code)).fieldText .age =
    ((stat.storeAll (copyRun .name r.name)).storeAll (copyRun .age r.age)).fieldText .age := by
  rw [storeAll_stores, fieldText_set_of_ne _ (by decide), fieldText_set_of_ne _ (by decide),
    storeAll_append]

/-- `EPOLLOUT` has a NUL in its second byte, where the longest string ends. -/
lemma text_events_stores : (stat.storeAll (r.stores code)).text .events = [4] := by
  have hfield : (stat.storeAll (r.stores code)).fieldText .events = [4] := by
    rw [storeAll_stores, ConnectStat.fieldText, slice_set_self]
    decide
  rw [text_eq (rfl : Field.data.offset = Field.events.offset + Field.events.size), hfield]
  rfl

/-- A string that ends inside its field. -/
lemma text_of_lt (h : g.offset = f.offset + f.size) (hlt : (stat.fieldText f).length < f.size) :
    stat.text f = stat.fieldText f := by
  rw [text_eq h, if_pos hlt, List.append_nil]

/-- What is copied into an empty or used field is the run. -/
lemma fieldText_copyRun_fits (hne : run ≠ []) (hnul : 0 ∉ run) (hlen : run.length < f.size) :
    (stat.storeAll (copyRun f run)).fieldText f = run := by
  rw [fieldText_copyRun_self hne, List.take_of_length_le hlen.le, cstr_eq_self_iff.mpr hnul]

lemma text_stores_name (hne : r.name ≠ []) (hnul : 0 ∉ r.name) (hlen : r.name.length ≤ 63) :
    (stat.storeAll (r.stores code)).text .name = r.name := by
  have hlt : r.name.length < Field.name.size := Nat.lt_succ_of_le hlen
  have hfield : (stat.storeAll (r.stores code)).fieldText .name = r.name := by
    rw [fieldText_stores_name, fieldText_copyRun_fits hne hnul hlt]
  rw [text_of_lt (rfl : Field.age.offset = Field.name.offset + Field.name.size)
    (by rwa [hfield]), hfield]

lemma text_stores_age (hne : r.age ≠ []) (hnul : 0 ∉ r.age) (hlen : r.age.length ≤ 63) :
    (stat.storeAll (r.stores code)).text .age = r.age := by
  have hlt : r.age.length < Field.age.size := Nat.lt_succ_of_le hlen
  have hfield : (stat.storeAll (r.stores code)).fieldText .age = r.age := by
    rw [fieldText_stores_age, fieldText_copyRun_fits hne hnul hlt]
  rw [text_of_lt (rfl : Field.events.offset = Field.age.offset + Field.age.size)
    (by rwa [hfield]), hfield]

/-- The strings that a request leaves come from the request and, where it brings none,
from what the field held before. -/
lemma SameWhereMissing.fieldText (code : Code) (h : SameWhereMissing r stat stat') :
    (stat.storeAll (r.stores code)).fieldText .name =
      (stat'.storeAll (r.stores code)).fieldText .name ∧
    (stat.storeAll (r.stores code)).fieldText .age =
      (stat'.storeAll (r.stores code)).fieldText .age := by
  constructor
  · rw [fieldText_stores_name, fieldText_stores_name]
    by_cases hrun : r.name = []
    · rw [hrun, storeAll_copyRun_nil, storeAll_copyRun_nil, h.name hrun]
    · rw [fieldText_copyRun_self hrun, fieldText_copyRun_self hrun]
  · rw [fieldText_stores_age, fieldText_stores_age]
    by_cases hrun : r.age = []
    · rw [hrun, storeAll_copyRun_nil, storeAll_copyRun_nil]
      exact fieldText_copyRun_congr (by decide) (h.age hrun)
    · rw [fieldText_copyRun_self hrun, fieldText_copyRun_self hrun]

lemma SameWhereMissing.text (code : Code) (h : SameWhereMissing r stat stat') :
    (stat.storeAll (r.stores code)).text .name = (stat'.storeAll (r.stores code)).text .name ∧
    (stat.storeAll (r.stores code)).text .age = (stat'.storeAll (r.stores code)).text .age := by
  obtain ⟨hname, hage⟩ := h.fieldText code
  have hnext : Field.age.offset = Field.name.offset + Field.name.size := rfl
  have hlast : Field.events.offset = Field.age.offset + Field.age.size := rfl
  have htext : (stat.storeAll (r.stores code)).text .age =
      (stat'.storeAll (r.stores code)).text .age := by
    rw [text_eq hlast, text_eq hlast, text_events_stores, text_events_stores, hage]
  refine ⟨?_, htext⟩
  rw [text_eq hnext, text_eq hnext, htext, hname]

lemma doHttpRespone_commit (hp : s.heap p = some stat)
    (hh : stat.get .handler = code.addr .commitResponeHandler) :
    s.doHttpRespone code p = .ok (s.commitResponeHandler p stat) := by
  have hne : stat.get .handler ≠ code.addr .welcomeResponseHandler := by
    rw [hh]
    exact code.ne.symm
  rw [Server.doHttpRespone, hp]
  dsimp only
  rw [if_neg hne, if_pos hh]

/-- A commit request makes its stores, and is answered by `commit_respone_handler`. -/
lemma doHttpRequest_commit (code : Code) {bytes : List UInt8}
    (hcommit : isCommit (cstr bytes) = true) (hr : parse (cstr bytes) = some r)
    (hp : s.heap p = some stat) :
    ∃ t, t = (s.setStat p (stat.storeAll (r.stores code))).register .EPOLL_CTL_MOD
        (stat.storeAll (r.stores code)) ∧
      s.doHttpRequest code (.data bytes) p = .ok t ∧
      t.heap p = some (stat.storeAll (r.stores code)) ∧
      t.doHttpRespone code p = .ok (t.commitResponeHandler p (stat.storeAll (r.stores code))) := by
  have hreq : s.doHttpRequest code (.data bytes) p =
      .ok ((s.setStat p (stat.storeAll (r.stores code))).register .EPOLL_CTL_MOD
        (stat.storeAll (r.stores code))) := by
    rw [Server.doHttpRequest, hp]
    dsimp only
    rw [hr]
  have hheap := doHttpRequest_heap hp bytes hreq
  rw [storesOf, hr] at hheap
  have hhandler : (stat.storeAll (r.stores code)).get .handler =
      code.addr .commitResponeHandler := by
    rw [parse_commit hcommit] at hr
    obtain ⟨body, -, rfl⟩ := Option.map_eq_some_iff.mp hr
    exact get_handler_stores _
  exact ⟨_, rfl, hreq, hheap, doHttpRespone_commit hheap hhandler⟩

lemma answers_commit (code : Code) {bytes : List UInt8}
    (hcommit : isCommit (cstr bytes) = true) (hr : parse (cstr bytes) = some r)
    (hp : s.heap p = some stat) :
    Answers code s p bytes ((stat.storeAll (r.stores code)).text .name)
      ((stat.storeAll (r.stores code)).text .age) := by
  obtain ⟨t, -, hreq, hheap, hresp⟩ := doHttpRequest_commit code hcommit hr hp
  exact ⟨t, _, _, hreq, hheap, rfl, rfl, hresp, rfl⟩

/-- Two clients in any states that hold the same strings where a commit request brings
none get the same answer to it. -/
theorem answers_same (code : Code) {bytes : List UInt8} (hcommit : isCommit (cstr bytes) = true)
    (hr : parse (cstr bytes) = some r) (hp : s.heap p = some stat)
    (hp' : s'.heap p' = some stat') (hsame : SameWhereMissing r stat stat') :
    ∃ name age, Answers code s p bytes name age ∧ Answers code s' p' bytes name age := by
  have h := answers_commit code hcommit hr hp
  have h' := answers_commit code hcommit hr hp'
  obtain ⟨hname, hage⟩ := hsame.text code
  rw [hname, hage] at h
  exact ⟨_, _, h, h'⟩

/-- `Post commit`, a blank line and `name=b&age=7`. -/
def bothFields : List UInt8 :=
  postCommit ++ blankLine ++ nameWord ++ [98] ++ [38] ++ ageWord ++ [55]

/-- The same without the name. -/
def nameless : List UInt8 := postCommit ++ blankLine ++ ageWord ++ [55]

/-- A server with the `ConnectStat` of descriptor 5 at an address. -/
def serverWith (stat : ConnectStat) : Server := (start 3 4 4 0x1000).server.setStat 0x2000 stat

@[simp] lemma heap_serverWith (stat : ConnectStat) : (serverWith stat).heap 0x2000 = some stat := by
  simp [serverWith, Server.setStat]

/-- The `ConnectStat` of a client that has committed the name `a` before. -/
def named : ConnectStat := (statInit 5).storeAll (storesOf sampleCode (cstr (longName 1)))

/-- A new client and one that has committed another name. -/
theorem answers_same_bothFields :
    ∃ name age, Answers sampleCode (serverWith (statInit 5)) 0x2000 bothFields name age ∧
      Answers sampleCode (serverWith named) 0x2000 bothFields name age := by
  have hr : parse (cstr bothFields) = some ⟨.commitResponeHandler, [98], [55]⟩ := by
    decide +kernel
  have hcommit : isCommit (cstr bothFields) = true := by decide +kernel
  exact answers_same sampleCode hcommit hr (heap_serverWith _) (heap_serverWith _)
    ⟨fun h => absurd h (by decide), fun h => absurd h (by decide)⟩

/-- A client is accepted as descriptor 5. -/
def acceptRun : List Act := [.wait [(3, EPOLLIN)], .handle ⟨some 5, 0x2000, .error⟩, .done]

/-- It sends the request without a name, and is answered. -/
def namelessRun : List Act :=
  [.wait [(5, EPOLLIN)], .handle ⟨none, 0x3000, .data nameless⟩, .done,
    .wait [(5, EPOLLOUT)], .handle ⟨none, 0x3000, .error⟩]

/-- If it has committed the name `a` before, then this name is in the answer. -/
theorem earlier_name_shows :
    isCommit (cstr nameless) = true ∧ blankLine <:+: cstr nameless ∧
    ((system sampleCode).exec (start 3 4 4 0x1000) (acceptRun ++ namelessRun)).map
      (·.server.sent) = some [(5, .commit [] [55])] ∧
    ((system sampleCode).exec (start 3 4 4 0x1000) (commitRun ++ .done :: namelessRun)).map
      (·.server.sent) = some [(5, .commit [97] [55]), (5, .commit [97] [])] := by
  decide +kernel

end ShareBike.Http
